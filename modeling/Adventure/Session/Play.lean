import Adventure.Session.Room
/-! What a player does in a session: apply verbs, let time pass, talk and walk. -/
namespace Adventure.Session

/-- The object of the name in the room, else in the inventory. -/
def findObject? (s : Session) (name : String) : Option Object :=
  (s.room.bind (·.objects.find? name)).or (s.inventory.find? name)

/-- Queues the first script for the verb that may run, and says whether there is one. -/
def dispatchVerb (s : Session) (verb : Verb) (name : String) : Bool × Session :=
  match s.findObject? name with
  | none => (false, s)
  | some object =>
    let (chosen, playback) := s.playback.interpret (object.chunks.get verb) s.rooms.previous
    (chosen.isSome, { s with playback })

def hotspotAt? (s : Session) (x y : Int32) : Option Hotspot × Session :=
  match s.room with
  | none => (none, s)
  | some room =>
    let look := fun (o : Object) =>
      let (activeVerbs, o) := Object.activeVerbs s.library.store s.vars Verb.all o
      ((⟨o.name, o.rect, activeVerbs⟩ : Hotspot), o)
    match Container.updateFirst (·.rect.contains x y) look room.objects.objects with
    | none => (none, s)
    | some (hotspot, objects) =>
      (some hotspot, { s with room := some { room with objects := ⟨objects⟩ } })

/-- Starts a conversation, and says whether there is one of the name. -/
def startConversation (s : Session) (name : String) : Except Error Bool × Session :=
  let resource := Conversation.resourceName name
  if !s.resources.contains resource then (.ok false, s)
  else
    match s.readText resource with
    | .error e => (.error e, s)
    | .ok reader =>
      match Conversation.parse name reader with
      | .error e => (.error (.conversation resource e), s)
      | .ok conversation => (.ok true, { s with conversation := some conversation })

/-- Does what a script has requested. What fails is passed over. -/
def fulfil (s : Session) : Script.Request → Session
  | .startConversation name => (s.startConversation name).2
  | .changeRoom room position =>
    match s.enterRoom room, position with
    | (.ok (), s), some p => s.tell (.moveActor p.x p.y p.facing)
    | (_, s), _ => s

def situation (s : Session) : Script.Situation where
  rooms := s.rooms
  conversationActive := s.conversation.any Conversation.isActive

/-- One tick of the scripts, then their requests. Says whether the scripts changed anything. -/
def tick (s : Session) : Bool × Session :=
  let result := s.playback.tick s.situation
  (result.changed, result.requests.foldl fulfil { s with playback := result.playback })

/-- Ticks until the scripts have gone quiet, at most `max` times. Gives the number of ticks. -/
def runUntilDrained : (max : Nat) → Session → Nat × Session
  | 0, s => (0, s)
  | max + 1, s =>
    if s.interpreter.isDrained then (0, s)
    else
      let (ticks, s) := runUntilDrained max s.tick.2
      (ticks + 1, s)

/-- The same with `ms` milliseconds after each tick. -/
def settle (ms : Moment) : (max : Nat) → Session → Nat × Session
  | 0, s => (0, s)
  | max + 1, s =>
    if s.interpreter.isDrained then (0, s)
    else
      let s := s.tick.2
      let (ticks, s) := settle ms max (s.setHost (s.host.advanceClock ms))
      (ticks + 1, s)

/-- Puts a conversation back; one that has ended is dropped. -/
def keepConversation (s : Session) (c : Conversation) : Session :=
  { s with conversation := if c.isActive then some c else none }

def conversationLines (s : Session) : List DialogueLine × Session :=
  match s.conversation with
  | none => ([], s)
  | some c =>
    let (lines, c) := c.currentLines s.vars
    (lines, s.keepConversation c)

/-- Speaks the answers to an entry on offer, then picks it. -/
def pick (s : Session) (name : String) : Bool × Session :=
  match s.conversation with
  | none => (false, s)
  | some c =>
    let (lines, c) := c.currentLines s.vars
    let answers :=
      if lines.any fun line => Text.same line.entry name then c.replies name else []
    let s := answers.foldl (fun s line => s.tell (.talk line.speaker line.text)) s
    let picked := c.pick name s.vars
    (picked.accepted, (s.setVars picked.vars).keepConversation picked.conversation)

def findPath (s : Session) (start goal : Walk.Point) : Option (List Walk.Point) :=
  s.grid.findPath start goal

end Adventure.Session
