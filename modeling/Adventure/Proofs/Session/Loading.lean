import Mathlib.Logic.Relation
import Adventure.Session.Save
import Adventure.Proofs.Room.Parse
/-! What the texts of a game define, and what a session makes of it when it loads a room or the
inventory. -/
namespace Adventure

open Script (Chunk ChunkId Library)

/-! ### Texts -/

namespace Resources

/-- The room as its text defines it. There is none if the text is missing or malformed. -/
def roomDef? (r : Resources) (id : UInt16) : Option RoomDef := do
  let bytes ← r.get? (Room.resourceName id)
  (RoomDef.empty.readSections (.ofBytes (Room.resourceName id) bytes)).toOption

/-- The objects that the text of a container defines. A missing text defines no objects. -/
def objectDefs? (r : Resources) (name : String) : Option (List ObjectDef) :=
  match r.get? name with
  | none => some []
  | some bytes => (ObjectDef.readContainer (.ofBytes name bytes)).toOption.map Prod.fst

/-- A conversation at its start. -/
def conversation? (r : Resources) (name : String) : Option Conversation := do
  let bytes ← r.get? (Conversation.resourceName name)
  (Conversation.parse name (.ofBytes (Conversation.resourceName name) bytes)).toOption

def roomChunks (r : Resources) (id : UInt16) : List Chunk :=
  ((r.roomDef? id).map RoomDef.chunkList).getD []

def objectChunks (r : Resources) (name : String) : List Chunk :=
  ((r.objectDefs? name).getD []).flatMap ObjectDef.chunkList

theorem contains_eq (r : Resources) (name : String) : r.contains name = (r.get? name).isSome := rfl

theorem fromText_roomChunks (r : Resources) (id : UInt16) :
    Chunk.FromText (Room.resourceName id) (r.roomChunks id) := by
  unfold roomChunks
  cases hd : r.roomDef? id with
  | none => exact .nil _
  | some d =>
      obtain ⟨bytes, -, hd⟩ := Option.bind_eq_some_iff.1 hd
      cases hread : RoomDef.empty.readSections (.ofBytes (Room.resourceName id) bytes) with
      | error e => rw [hread] at hd; cases hd
      | ok d' => rw [hread] at hd; cases hd; exact RoomDef.fromText hread

theorem fromText_objectChunks (r : Resources) (name : String) :
    Chunk.FromText name (r.objectChunks name) := by
  unfold objectChunks objectDefs?
  split
  · exact .nil name
  · next bytes _ =>
    cases hread : ObjectDef.readContainer (.ofBytes name bytes) with
    | error e => exact .nil name
    | ok p => exact ObjectDef.fromText hread

end Resources

/-- What of a room its text alone decides. -/
def Room.outline (room : Room) : UInt16 × List String × List (String × UInt8) :=
  (room.id, room.locals, room.randoms)

namespace Session
variable {s : Session} {id : UInt16} {d : RoomDef} {ds : List ObjectDef} {name : String} {bytes : List UInt8}

theorem readText_of_some (h : s.resources.get? name = some bytes) :
    s.readText name = .ok (.ofBytes name bytes) := by
  rw [readText, Resources.fetch, h]

theorem readText_of_none (h : s.resources.get? name = none) :
    s.readText name = .error (.opening name ⟨name, s.resources.root⟩) := by
  rw [readText, Resources.fetch, h]

/-! ### The inventory -/

@[simp] theorem dropInventory_config (s : Session) : s.dropInventory.config = s.config := rfl
@[simp] theorem dropInventory_resources (s : Session) : s.dropInventory.resources = s.resources := rfl

def installInventory (s : Session) (ds : List ObjectDef) : Session :=
  let (inventory, library) := Container.install ds s.library
  { s.setLibrary library with inventory }

theorem loadInventory_of_some (h : s.resources.objectDefs? s.config.inventory = some ds) :
    s.loadInventory = (.ok (), s.dropInventory.installInventory ds) := by
  unfold Resources.objectDefs? at h
  unfold loadInventory
  dsimp only
  split at h
  · next hnone =>
    cases h
    rw [if_pos (by simp [Resources.contains_eq, hnone])]
    rfl
  · next bytes hsome =>
    have hreader : s.dropInventory.readText s.config.inventory = .ok (.ofBytes s.config.inventory bytes) :=
      readText_of_some hsome
    rw [if_neg (by simp [Resources.contains_eq, hsome]), dropInventory_config, hreader]
    cases hread : ObjectDef.readContainer (.ofBytes s.config.inventory bytes) with
    | error e => rw [hread] at h; cases h
    | ok p =>
        rw [hread] at h
        cases h
        simp [Container.parse, hread, bind, Except.bind, pure, Except.pure, installInventory]

theorem loadInventory_of_none (h : s.resources.objectDefs? s.config.inventory = none) :
    ∃ e, s.loadInventory = (.error e, s.dropInventory) := by
  unfold Resources.objectDefs? at h
  unfold loadInventory
  dsimp only
  split at h
  · cases h
  · next bytes hsome =>
    have hreader : s.dropInventory.readText s.config.inventory = .ok (.ofBytes s.config.inventory bytes) :=
      readText_of_some hsome
    rw [if_neg (by simp [Resources.contains_eq, hsome]), dropInventory_config, hreader]
    cases hread : ObjectDef.readContainer (.ofBytes s.config.inventory bytes) with
    | error e => simp [Container.parse, hread, bind, Except.bind]
    | ok p => rw [hread] at h; cases h

/-- What loading the inventory does, whether its text is well formed or not. -/
structure Restocked (s s' : Session) : Prop where
  config : s'.config = s.config
  resources : s'.resources = s.resources
  interpreter : s'.interpreter = s.interpreter
  vars : s'.vars = s.vars
  host : s'.host = s.host
  rooms : s'.rooms = s.rooms
  grid : s'.grid = s.grid
  room : s'.room = s.room
  conversation : s'.conversation = s.conversation
  chunks : (s'.inventory.chunkIds, s'.library) =
    Library.adoptAll (s.resources.objectChunks s.config.inventory)
      (s.library.releaseAll s.inventory.chunkIds)

theorem restocked_loadInventory (s : Session) : s.Restocked s.loadInventory.2 := by
  have hdrop : s.dropInventory.library = s.library.releaseAll s.inventory.chunkIds :=
    s.inventory.destroy_eq s.library
  cases h : s.resources.objectDefs? s.config.inventory with
  | some ds =>
      rw [loadInventory_of_some h]
      refine ⟨rfl, rfl, rfl, rfl, rfl, rfl, rfl, rfl, rfl, ?_⟩
      rw [Resources.objectChunks, h, Option.getD_some, ← hdrop, ← Container.install_eq]
      rfl
  | none =>
      obtain ⟨e, he⟩ := loadInventory_of_none h
      rw [he]
      refine ⟨rfl, rfl, rfl, rfl, rfl, rfl, rfl, rfl, rfl, ?_⟩
      rw [Resources.objectChunks, h, ← hdrop]
      rfl

/-! ### Rooms -/

def roomIds (s : Session) : List ChunkId :=
  (s.room.map Room.chunkIds).getD []

def installRoom (s : Session) (id : UInt16) (d : RoomDef) : Session :=
  let (room, library) := Room.install id d s.library
  let s := (s.setLibrary library).setVars (room.declareVariables s.vars)
  { (s.loadWalkMap room.walkMap).tell (.changeRoom id) with room := some room }

@[simp] theorem installRoom_resources (s : Session) (id : UInt16) (d : RoomDef) :
    (s.installRoom id d).resources = s.resources := rfl

@[simp] theorem installRoom_rooms (s : Session) (id : UInt16) (d : RoomDef) :
    (s.installRoom id d).rooms = s.rooms := rfl

@[simp] theorem installRoom_conversation (s : Session) (id : UInt16) (d : RoomDef) :
    (s.installRoom id d).conversation = s.conversation := rfl

theorem loadRoom_of_some (h : s.resources.roomDef? id = some d) :
    s.loadRoom id = (.ok (), s.installRoom id d) := by
  obtain ⟨bytes, hbytes, hd⟩ := Option.bind_eq_some_iff.1 h
  unfold loadRoom
  dsimp only
  rw [readText_of_some hbytes]
  cases hread : RoomDef.empty.readSections (.ofBytes (Room.resourceName id) bytes) with
  | error e => rw [hread] at hd; cases hd
  | ok d' =>
      rw [hread] at hd
      cases hd
      simp [Room.parse, hread, bind, Except.bind, pure, Except.pure, installRoom]

theorem loadRoom_of_none (h : s.resources.roomDef? id = none) : ∃ e, s.loadRoom id = (.error e, s) := by
  unfold loadRoom
  dsimp only
  cases hbytes : s.resources.get? (Room.resourceName id) with
  | none => simp [readText_of_none hbytes]
  | some bytes =>
      rw [readText_of_some hbytes]
      cases hread : RoomDef.empty.readSections (.ofBytes (Room.resourceName id) bytes) with
      | error e => simp [Room.parse, hread, bind, Except.bind]
      | ok d' => simp [Resources.roomDef?, hbytes, hread, Except.toOption] at h

/-- The variables as the room declares them, with no values. -/
def declared (s : Session) : Variables :=
  (s.room.map (Room.declareVariables · .empty)).getD .empty

theorem dropRoom_eq (s : Session) :
    s.dropRoom = { s.setLibrary (s.library.releaseAll s.roomIds) with room := none } := by
  unfold dropRoom roomIds
  split
  · next room hroom => rw [hroom, Room.destroy_eq]; rfl
  · next hroom =>
    obtain ⟨config, resources, playback, grid, rooms, room, inventory, conversation⟩ := s
    cases hroom
    rfl

/-- The session on its way to a room. -/
def between (s : Session) (id : UInt16) : Session where
  config := s.config
  resources := s.resources
  playback := {
    library := s.library.releaseAll s.roomIds
    interpreter := s.interpreter.clear
    vars := s.vars.clearLocals
    host := s.host }
  grid := s.grid
  rooms := { current := id, previous := s.rooms.current }
  room := none
  inventory := s.inventory
  conversation := none

/-- Leaves the room for another one, which is loaded if there is such a room. -/
def moveTo (s : Session) (id : UInt16) : Except Error Unit × Session :=
  let s := s.leaveRoom
  let s := { s with rooms := { current := id, previous := s.rooms.current } }
  s.loadRoom id

theorem moveTo_eq (s : Session) (id : UInt16) : s.moveTo id = (s.between id).loadRoom id := by
  rw [moveTo, leaveRoom, dropRoom_eq]
  rfl

theorem enterRoom_eq (s : Session) (id : UInt16) : s.enterRoom id =
    match s.moveTo id with
    | (.error e, s) => (.error e, s)
    | (.ok (), s) => (.ok (), s.queueEntrances ((s.room.map Room.enter).getD [])) := rfl

/-- What moving to a room does, whether there is such a room or not. -/
structure Moved (s : Session) (id : UInt16) (s' : Session) : Prop where
  config : s'.config = s.config
  resources : s'.resources = s.resources
  interpreter : s'.interpreter = s.interpreter.clear
  inventory : s'.inventory = s.inventory
  rooms : s'.rooms = { current := id, previous := s.rooms.current }
  conversation : s'.conversation = none
  room : s'.room.map Room.outline = (s.resources.roomDef? id).map fun d => (id, d.locals, d.randoms)
  vars : s'.vars.SameDeclarations s'.declared
  chunks : (s'.roomIds, s'.library) =
    Library.adoptAll (s.resources.roomChunks id) (s.library.releaseAll s.roomIds)

theorem moved_moveTo (s : Session) (id : UInt16) : s.Moved id (s.moveTo id).2 := by
  have hempty : s.vars.clearLocals.SameDeclarations .empty := ⟨rfl, rfl⟩
  rw [moveTo_eq]
  cases h : s.resources.roomDef? id with
  | some d =>
      rw [loadRoom_of_some (s := s.between id) h]
      refine ⟨rfl, rfl, rfl, rfl, rfl, rfl, ?_, ?_, ?_⟩
      · rw [h]; rfl
      · exact Room.declares_declareVariables hempty
      · rw [Resources.roomChunks, h, Option.map_some, Option.getD_some, ← Room.install_eq id]
        rfl
  | none =>
      obtain ⟨e, he⟩ := loadRoom_of_none (s := s.between id) h
      rw [he]
      refine ⟨rfl, rfl, rfl, rfl, rfl, rfl, ?_, hempty, ?_⟩
      · rw [h]; rfl
      · rw [Resources.roomChunks, h]
        rfl

/-- What coming to a room does, whether there is such a room or not. No script is queued yet. -/
structure Arrives (s : Session) (id : UInt16) (s' : Session) : Prop where
  config : s'.config = s.config
  resources : s'.resources = s.resources
  inventory : s'.inventory = s.inventory
  current : s'.rooms.current = id
  queue : s'.interpreter.queue = []
  chunks : (s'.roomIds, s'.library) =
    Library.adoptAll (s.resources.roomChunks id) (s.library.releaseAll s.roomIds)

theorem Moved.arrives {s' : Session} (h : s.Moved id s') : s.Arrives id s' where
  config := h.config
  resources := h.resources
  inventory := h.inventory
  current := by rw [h.rooms]
  queue := by rw [h.interpreter]; rfl
  chunks := h.chunks

theorem arrives_loadRoom (hroom : s.room = none) (hqueue : s.interpreter.queue = []) :
    s.Arrives s.rooms.current (s.loadRoom s.rooms.current).2 := by
  have hids : s.roomIds = [] := by rw [roomIds, hroom]; rfl
  cases h : s.resources.roomDef? s.rooms.current with
  | some d =>
      rw [loadRoom_of_some h]
      refine ⟨rfl, rfl, rfl, rfl, hqueue, ?_⟩
      rw [hids, Resources.roomChunks, h, Option.map_some, Option.getD_some]
      exact Room.install_eq s.rooms.current d s.library
  | none =>
      obtain ⟨e, he⟩ := loadRoom_of_none h
      rw [he]
      refine ⟨rfl, rfl, rfl, rfl, hqueue, ?_⟩
      rw [hids, Resources.roomChunks, h]
      rfl

/-! ### Saved games -/

/-- The session on its way to a saved game. -/
def vacated (s : Session) (state : SaveState) : Session :=
  let s := s.leaveRoom.dropInventory
  let s := s.setVars (.ofSnapshot state.vars)
  { s.setLibrary (s.library.restoreLines state.scriptLines) with rooms := state.rooms }

theorem vacated_eq (s : Session) (state : SaveState) : s.vacated state = {
    config := s.config
    resources := s.resources
    playback := {
      library := (s.library.releaseAll (s.roomIds ++ s.inventory.chunkIds)).restoreLines state.scriptLines
      interpreter := s.interpreter.clear
      vars := .ofSnapshot state.vars
      host := s.host }
    grid := s.grid
    rooms := state.rooms
    room := none
    inventory := .empty
    conversation := none } := by
  rw [vacated, leaveRoom, dropRoom_eq, Library.releaseAll_append, ← Container.destroy_eq]
  rfl

theorem restore_eq (s : Session) (state : SaveState) : s.restore state =
    match (s.vacated state).loadInventory with
    | (.error e, s) => (.error e, s)
    | (.ok (), s) => s.resumeRoom state := rfl

/-- The session with the queue of a saved game. -/
def requeued (t : Session) (state : SaveState) : Session :=
  t.setInterpreter (t.interpreter.restore state.interpreter t.library t.host.now)

/-- The single steps in which a saved game is loaded. -/
inductive LoadStep (state : SaveState) : Session → Session → Prop where
  | vacate (s : Session) : LoadStep state s (s.vacated state)
  | loadInventory {s : Session} (hqueue : s.interpreter.queue = []) : LoadStep state s s.loadInventory.2
  | loadRoom {s : Session} (hroom : s.room = none) (hqueue : s.interpreter.queue = []) :
      LoadStep state s (s.loadRoom s.rooms.current).2
  | requeue (s : Session) : LoadStep state s (s.requeued state)
  | converse (s : Session) (conversation : Option Conversation) : LoadStep state s { s with conversation }

/-- What becomes of a session on the way to a saved game. -/
abbrev LoadSteps (state : SaveState) : Session → Session → Prop :=
  Relation.ReflTransGen (LoadStep state)

theorem startConversation_eq (s : Session) (name : String) :
    ∃ conversation, (s.startConversation name).2 = { s with conversation } := by
  unfold startConversation
  dsimp only
  split
  · exact ⟨s.conversation, rfl⟩
  · split
    · exact ⟨s.conversation, rfl⟩
    · split
      · exact ⟨s.conversation, rfl⟩
      · exact ⟨_, rfl⟩

theorem resumeConversation_eq (s : Session) (snapshot : ConversationSnapshot) :
    ∃ conversation, (s.resumeConversation snapshot).2 = { s with conversation } := by
  obtain ⟨conversation, hstart⟩ := s.startConversation_eq snapshot.name
  unfold resumeConversation
  split
  · next heq => exact ⟨conversation, by rw [← hstart, heq]⟩
  · next heq => exact ⟨conversation, by rw [← hstart, heq]⟩
  · next t heq =>
    rw [heq] at hstart
    obtain rfl : t = { s with conversation } := hstart
    exact ⟨_, rfl⟩

theorem loadSteps_resume (s : Session) (state : SaveState) : s.LoadSteps state (s.resume state).2 := by
  have hqueue : s.LoadSteps state (s.requeued state) := .single (.requeue s)
  unfold resume
  dsimp only
  split
  · exact hqueue
  · next snapshot _ =>
    obtain ⟨conversation, heq⟩ := (s.requeued state).resumeConversation_eq snapshot
    rw [← requeued, heq]
    exact hqueue.tail (.converse _ conversation)

theorem loadSteps_resumeRoom (hroom : s.room = none) (hqueue : s.interpreter.queue = []) (state : SaveState) :
    s.LoadSteps state (s.resumeRoom state).2 := by
  have hload : s.LoadSteps state (s.loadRoom s.rooms.current).2 := .single (.loadRoom hroom hqueue)
  unfold resumeRoom
  split
  · exact s.loadSteps_resume state
  · split
    · next heq => rwa [heq] at hload
    · next heq =>
      rw [heq] at hload
      exact hload.trans (loadSteps_resume _ state)

theorem loadSteps_vacated (s : Session) (state : SaveState) :
    (s.vacated state).LoadSteps state (s.restore state).2 := by
  have hvacated := s.vacated_eq state
  have hqueue : (s.vacated state).interpreter.queue = [] := by rw [hvacated]; rfl
  have hload : (s.vacated state).LoadSteps state (s.vacated state).loadInventory.2 :=
    .single (.loadInventory hqueue)
  have hstocked := (s.vacated state).restocked_loadInventory
  rw [restore_eq]
  split
  · next heq => rwa [heq] at hload
  · next heq =>
    rw [heq] at hload hstocked
    refine hload.trans (loadSteps_resumeRoom ?_ ?_ state)
    · rw [hstocked.room, hvacated]
    · rw [hstocked.interpreter, hqueue]

/-- Putting a saved game in the place of the present one is made of such steps, also where it fails. -/
theorem loadSteps_restore (s : Session) (state : SaveState) : s.LoadSteps state (s.restore state).2 :=
  .head (.vacate s) (s.loadSteps_vacated state)

end Session
end Adventure
