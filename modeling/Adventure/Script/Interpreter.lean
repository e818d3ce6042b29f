import Adventure.Script.Library
import Adventure.Script.Scene
/-! The queue of running scripts, and its form in a saved game. -/
namespace Adventure.Script

structure Queued where
  chunk : ChunkId
  wait : Wait
  /-- Ticks spent waiting or holding. -/
  heldTicks : Nat
  deriving DecidableEq, Repr

def Queued.fresh (id : ChunkId) : Queued :=
  { chunk := id, wait := .none, heldTicks := 0 }

inductive WaitTag where
  | none
  | conversation
  | movie
  | delay
  deriving DecidableEq, Repr

/-- A queued script as it is saved. A delay counts from the moment of saving. -/
structure SavedScript where
  signature : String
  wait : WaitTag
  delayRemaining : Moment
  deriving DecidableEq, Repr

structure InterpreterState where
  queue : List SavedScript
  bindings : List SoundBinding
  deriving DecidableEq, Repr

def Wait.save (now : Moment) : Wait → WaitTag × Moment
  | .none => (.none, 0)
  | .conversation => (.conversation, 0)
  | .movie => (.movie, 0)
  | .delay due => (.delay, now.remaining due)

def Wait.ofSaved (now : Moment) (remaining : Moment) : WaitTag → Wait
  | .none => .none
  | .conversation => .conversation
  | .movie => .movie
  | .delay => .delay (now.after remaining)

structure Interpreter where
  queue : List Queued
  bindings : List SoundBinding
  /-- Ticks without a change since the latest change. -/
  idleTicks : Nat
  /-- So many of them mean that the scripts have gone quiet. -/
  drainTicks : Nat
  dice : Random.Stream
  deriving DecidableEq, Repr

namespace Interpreter

def defaultDrainTicks : Nat := 10

def ofSeed (seed : UInt64) (drainTicks : Nat) : Interpreter :=
  { queue := [], bindings := [], idleTicks := 0, drainTicks, dice := .ofSeed seed }

def enqueue (i : Interpreter) (id : ChunkId) : Interpreter :=
  { i with queue := i.queue ++ [.fresh id], idleTicks := 0 }

def isDrained (i : Interpreter) : Bool :=
  i.drainTicks ≤ i.idleTicks

def isQueued (i : Interpreter) (id : ChunkId) : Bool :=
  i.queue.any (·.chunk == id)

/-- Drops every queued script where it stands. -/
def clear (i : Interpreter) : Interpreter :=
  { i with queue := [], bindings := [], idleTicks := 0 }

/-- The queue as it is saved; scripts without a chunk are left out. -/
def save (i : Interpreter) (store : Store) (now : Moment) : InterpreterState where
  queue := i.queue.filterMap fun q =>
    (store.get? q.chunk).map fun chunk =>
      let (wait, delayRemaining) := q.wait.save now
      { signature := chunk.signature, wait, delayRemaining }
  bindings := i.bindings

/-- Queues saved scripts again; those without a loaded chunk are left out. -/
def restore (i : Interpreter) (state : InterpreterState) (library : Library) (now : Moment) :
    Interpreter :=
  { i.clear with
    queue := state.queue.filterMap fun saved =>
      (library.live? saved.signature).map fun id =>
        { chunk := id, wait := .ofSaved now saved.delayRemaining saved.wait, heldTicks := 0 }
    bindings := state.bindings }

end Interpreter
end Adventure.Script
