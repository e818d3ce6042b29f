import Adventure.Session.Basic
/-! Rooms and the inventory of a session: loading, entering and leaving them. An operation that fails
hands out the session as it left it. -/
namespace Adventure.Session

def dropInventory (s : Session) : Session :=
  { s.setLibrary (s.inventory.destroy s.library) with inventory := .empty }

/-- Loads the inventory anew. Without such a resource it is empty. -/
def loadInventory (s : Session) : Except Error Unit × Session :=
  let s := s.dropInventory
  let name := s.config.inventory
  if !s.resources.contains name then (.ok (), s)
  else
    match s.readText name with
    | .error e => (.error e, s)
    | .ok reader =>
      match Container.parse reader s.library with
      | .error e => (.error (.inventory name e), s)
      | .ok (inventory, library, _) => (.ok (), { s.setLibrary library with inventory })

def dropRoom (s : Session) : Session :=
  match s.room with
  | some room => { s.setLibrary (room.destroy s.library) with room := none }
  | none => s

/-- Stops all scripts, ends the conversation, and forgets the room and its own variables. -/
def leaveRoom (s : Session) : Session :=
  let s := { s.setInterpreter s.interpreter.clear with conversation := none }
  let s := s.dropRoom
  s.setVars s.vars.clearLocals

/-- The grid with the map of a resource, if there is such a map and it fits the screen. -/
def mapGrid? (s : Session) (name : String) : Option Walk.Grid := do
  let bytes ← s.resources.get? name
  let map ← (WalkMap.parse bytes).toOption
  (s.grid.setMap map).toOption

/-- Sets the walk map of a room. Without a fitting map no cell is walkable. -/
def loadWalkMap (s : Session) (name : Option String) : Session :=
  { s with grid := (name.bind s.mapGrid?).getD s.grid.clear }

def loadRoom (s : Session) (id : UInt16) : Except Error Unit × Session :=
  let name := Room.resourceName id
  match s.readText name with
  | .error e => (.error e, s)
  | .ok reader =>
    match Room.parse id reader s.library with
    | .error e => (.error (.room name e), s)
    | .ok (room, library) =>
      let s := (s.setLibrary library).setVars (room.declareVariables s.vars)
      let s := (s.loadWalkMap room.walkMap).tell (.changeRoom id)
      (.ok (), { s with room := some room })

/-- Queues the chunks of a list that may run, each on its own. -/
def queueEntrances (s : Session) (ids : List Script.ChunkId) : Session :=
  ids.foldl (fun s id =>
    { s with playback := (s.playback.interpret [id] s.rooms.previous).2 }) s

/-- Leaves the room, loads another one and queues its entrance scripts. -/
def enterRoom (s : Session) (id : UInt16) : Except Error Unit × Session :=
  let s := s.leaveRoom
  let s := { s with rooms := { current := id, previous := s.rooms.current } }
  match s.loadRoom id with
  | (.error e, s) => (.error e, s)
  | (.ok (), s) => (.ok (), s.queueEntrances ((s.room.map Room.enter).getD []))

end Adventure.Session
