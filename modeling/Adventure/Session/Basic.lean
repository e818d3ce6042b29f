import Adventure.Conversation.Parse
import Adventure.Conversation.Play
import Adventure.Resources
import Adventure.Room.Basic
import Adventure.Save.State
import Adventure.Script.Playback
import Adventure.Walk.Path
/-! A session: one player's game, with all that is loaded of it. -/
namespace Adventure

structure SessionConfig where
  screenWidth : UInt32
  screenHeight : UInt32
  cellSize : UInt32
  /-- How many cells one round of a path search may reach for each cell of the grid. -/
  pathExpansion : Nat
  drainTicks : Nat
  seed : UInt64
  /-- The resource that defines the objects of the inventory. -/
  inventory : String
  deriving DecidableEq, Repr

def SessionConfig.standard : SessionConfig where
  screenWidth := 640
  screenHeight := 480
  cellSize := 10
  pathExpansion := 3
  drainTicks := Script.Interpreter.defaultDrainTicks
  seed := 0
  inventory := "inv.txt"

structure Session where
  config : SessionConfig
  resources : Resources
  playback : Script.Playback
  grid : Walk.Grid
  rooms : Script.RoomTransition
  room : Option Room
  inventory : Container
  conversation : Option Conversation

inductive Session.Error where
  | opening (name : String) (cause : ResourceError)
  | room (name : String) (cause : ParseError)
  | inventory (name : String) (cause : ParseError)
  | conversation (name : String) (cause : ParseError)
  | decoding (cause : Save.Error)
  | encoding (cause : Save.Error)
  deriving DecidableEq, Repr

def Session.Error.message : Session.Error → String
  | .opening name cause => s!"opening {name}: {cause.message}"
  | .room name cause => s!"parsing room {name}: {cause.message}"
  | .inventory name cause => s!"parsing inventory {name}: {cause.message}"
  | .conversation name cause => s!"parsing conversation {name}: {cause.message}"
  | .decoding cause => s!"decoding save record: {cause.message}"
  | .encoding cause => s!"encoding save record: {cause.message}"

/-- An object under the pointer, and the verbs that would do something to it. -/
structure Hotspot where
  name : String
  rect : Rect
  activeVerbs : List Verb
  deriving DecidableEq, Repr

namespace Session

/-- A session in which nothing is loaded. -/
def start (config : SessionConfig) (resources : Resources) (host : Host) : Session where
  config
  resources
  playback := {
    library := .empty
    interpreter := .ofSeed config.seed config.drainTicks
    vars := .empty
    host }
  grid := .ofScreen config.screenWidth config.screenHeight config.cellSize config.pathExpansion
  rooms := default
  room := none
  inventory := .empty
  conversation := none

def library (s : Session) : Script.Library :=
  s.playback.library

def interpreter (s : Session) : Script.Interpreter :=
  s.playback.interpreter

def vars (s : Session) : Variables :=
  s.playback.vars

def host (s : Session) : Host :=
  s.playback.host

def setLibrary (s : Session) (library : Script.Library) : Session :=
  { s with playback := { s.playback with library } }

def setInterpreter (s : Session) (interpreter : Script.Interpreter) : Session :=
  { s with playback := { s.playback with interpreter } }

def setVars (s : Session) (vars : Variables) : Session :=
  { s with playback := { s.playback with vars } }

def setHost (s : Session) (host : Host) : Session :=
  { s with playback := { s.playback with host } }

def tell (s : Session) (event : HostEvent) : Session :=
  s.setHost (s.host.record event)

/-- A text resource, ready to be read. -/
def readText (s : Session) (name : String) : Except Error Text.Reader :=
  match s.resources.fetch name with
  | .ok bytes => .ok (.ofBytes name bytes)
  | .error cause => .error (.opening name cause)

end Session
end Adventure
