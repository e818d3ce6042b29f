import Adventure.Session.Play
/-! Saving a session and loading it again. -/
namespace Adventure.Session

def saveState (s : Session) : SaveState where
  rooms := s.rooms
  vars := s.vars.snapshot
  scriptLines := s.library.lines
  interpreter := s.interpreter.save s.library.store s.host.now
  conversation := s.conversation.map Conversation.snapshot

def save (s : Session) : Except Error MessagePack.Bytes :=
  s.saveState.toBytes.mapError .encoding

/-- Starts the conversation of a snapshot and restores it. -/
def resumeConversation (s : Session) (snapshot : ConversationSnapshot) :
    Except Error Unit × Session :=
  match s.startConversation snapshot.name with
  | (.error e, s) => (.error e, s)
  | (.ok false, s) => (.ok (), s)
  | (.ok true, s) => (.ok (), { s with conversation := s.conversation.map (·.restore snapshot) })

/-- Queues the saved scripts and resumes the conversation. -/
def resume (s : Session) (state : SaveState) : Except Error Unit × Session :=
  let s := s.setInterpreter (s.interpreter.restore state.interpreter s.library s.host.now)
  match state.conversation with
  | none => (.ok (), s)
  | some snapshot => s.resumeConversation snapshot

/-- Loads the room that a saved game was in, if any, and resumes there. -/
def resumeRoom (s : Session) (state : SaveState) : Except Error Unit × Session :=
  if s.rooms.current = 0 then s.resume state
  else
    match s.loadRoom s.rooms.current with
    | (.error e, s) => (.error e, s)
    | (.ok (), s) => s.resume state

/-- Puts a saved game in the place of the present one. Entrance scripts are not run again. -/
def restore (s : Session) (state : SaveState) : Except Error Unit × Session :=
  let s := s.leaveRoom.dropInventory
  let s := s.setVars (.ofSnapshot state.vars)
  let s := { s.setLibrary (s.library.restoreLines state.scriptLines) with rooms := state.rooms }
  match s.loadInventory with
  | (.error e, s) => (.error e, s)
  | (.ok (), s) => s.resumeRoom state

def load (s : Session) (bytes : MessagePack.Bytes) : Except Error Unit × Session :=
  match SaveState.ofBytes bytes with
  | .error e => (.error (.decoding e), s)
  | .ok state => s.restore state

end Adventure.Session
