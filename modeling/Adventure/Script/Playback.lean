import Adventure.Script.Interpreter
import Adventure.Script.Perform
/-! Playing scripts. In every tick each queued script performs at most one action, in the order of the
queue; a script that waits does not hold up the others. -/
namespace Adventure.Script

structure Playback where
  library : Library
  interpreter : Interpreter
  vars : Variables
  host : Host
  deriving DecidableEq, Repr

structure Turn where
  script : Queued
  store : Store
  scene : Scene
  changed : Bool

/-- Performs the current action of a script that does not wait. -/
def Queued.act (situation : Situation) (q : Queued) (store : Store) (scene : Scene)
    (changed : Bool) : Turn :=
  match (store.get? q.chunk).bind Chunk.currentAction? with
  | none => ⟨q, store, scene, changed⟩
  | some action =>
    match action.perform situation scene with
    | (.ok, scene) => ⟨q, store.modify q.chunk .advance, scene, true⟩
    | (.invalid, scene) => ⟨q, store.modify q.chunk .skipToEnd, scene, true⟩
    | (.stop, scene) => ⟨q, store.modify q.chunk .skipToEnd, scene, true⟩
    | (.wait reason, scene) =>
      ⟨{ q with wait := reason }, store.modify q.chunk .advance, scene, true⟩
    | (.hold, scene) => ⟨{ q with heldTicks := q.heldTicks + 1 }, store, scene, changed⟩

/-- One script's turn: a wait that is over is dropped, and then the script acts. -/
def Queued.turn (situation : Situation) (q : Queued) (store : Store) (scene : Scene) : Turn :=
  if q.wait = .none then q.act situation store scene false
  else if q.wait.isPending situation scene.host then
    ⟨{ q with heldTicks := q.heldTicks + 1 }, store, scene, false⟩
  else { q with wait := .none }.act situation store scene true

structure Round where
  queue : List Queued
  store : Store
  scene : Scene
  changed : Bool

def playQueue (situation : Situation) : List Queued → Store → Scene → Round
  | [], store, scene => ⟨[], store, scene, false⟩
  | q :: queue, store, scene =>
    let turn := q.turn situation store scene
    let round := playQueue situation queue turn.store turn.scene
    ⟨turn.script :: round.queue, round.store, round.scene, turn.changed || round.changed⟩

def Queued.isDone (q : Queued) (store : Store) : Bool :=
  q.wait = .none && (store.get? q.chunk).all Chunk.isFinished

/-- A chunk whose last queued run is over is retired if it runs once, and else rewound. -/
def Library.finish (l : Library) (id : ChunkId) : Library :=
  match l.store.get? id with
  | none => l
  | some chunk => if chunk.once then l.retire id else { l with store := l.store.modify id .rewind }

/-- Finishes the chunks of the scripts that are done, unless another script still runs them. -/
def Library.finishAll (l : Library) (remaining done : List Queued) : Library :=
  (done.filter fun q => !remaining.any (·.chunk == q.chunk)).foldl (fun l q => l.finish q.chunk) l

namespace Playback

/-- The variables after the bindings of stopped sounds have fired. -/
def fireBindings (host : Host) (bindings : List SoundBinding) (vars : Variables) : Variables :=
  (bindings.filter fun b => !host.isSoundPlaying b.id).foldl (fun v b => v.set b.name 1) vars

def openScene (p : Playback) : Scene where
  vars := fireBindings p.host p.interpreter.bindings p.vars
  host := p.host
  requests := []
  bindings := p.interpreter.bindings.filter fun b => p.host.isSoundPlaying b.id

structure Tick where
  playback : Playback
  requests : List Request
  /-- Whether anything that can be seen has changed. -/
  changed : Bool

def tick (p : Playback) (situation : Situation) : Tick :=
  let fired := p.interpreter.bindings.any fun b => !p.host.isSoundPlaying b.id
  let round := playQueue situation p.interpreter.queue p.library.store p.openScene
  let remaining := round.queue.filter (!·.isDone round.store)
  let done := round.queue.filter (·.isDone round.store)
  let changed := fired || round.changed || !done.isEmpty
  { playback := {
      library := { p.library with store := round.store }.finishAll remaining done
      interpreter := {
        p.interpreter with
        queue := remaining
        bindings := round.scene.bindings
        idleTicks := if changed then 0 else p.interpreter.idleTicks + 1 }
      vars := round.scene.vars
      host := round.scene.host }
    requests := round.scene.requests
    changed }

/-- Rolls the random variables, then queues the first candidate that may run. -/
def interpret (p : Playback) (candidates : List ChunkId) (previousRoom : UInt16) :
    Option ChunkId × Playback :=
  let (vars, dice) := p.vars.reroll p.interpreter.dice
  let p := { p with vars, interpreter := { p.interpreter with dice } }
  match candidates.find? fun id =>
      (p.library.store.get? id).any (·.isCandidate vars previousRoom) with
  | some id => (some id, { p with interpreter := p.interpreter.enqueue id })
  | none => (none, p)

end Playback
end Adventure.Script
