import Adventure.Json
import Adventure.Session.Basic
import Adventure.Text.Padding
/-! What a run of the player reports: the events with their ticks, in words or as JSON. -/
namespace Adventure

def HostEvent.describe : HostEvent → String
  | .sound name id => s!"sound {name} #{id}"
  | .midi name => s!"midi {name}"
  | .movie name blocking => s!"movie {name}" ++ if blocking then " (blocking)" else ""
  | .changeRoom room => "room " ++ Text.padLeft '0' 4 (toString room)
  | .moveActor x y facing => s!"move ({x}, {y}) facing {facing}"
  | .cursor name => s!"cursor {name}"
  | .talk speaker text => s!"talk {speaker}: {text}"
  | .palette name => s!"palette {name}"
  | .effect name => s!"effect {name}"
  | .redraw r => s!"redraw ({r.x1}, {r.y1})-({r.x2}, {r.y2})"

def HostEvent.fields : HostEvent → List (String × Json)
  | .sound name id => [("kind", .text "sound"), ("name", .text name), ("id", .number id.toNat)]
  | .midi name => [("kind", .text "midi"), ("name", .text name)]
  | .movie name blocking =>
    [("kind", .text "movie"), ("name", .text name), ("blocking", .bool blocking)]
  | .changeRoom room => [("kind", .text "change_room"), ("room", .number room.toNat)]
  | .moveActor x y facing => [
      ("kind", .text "move_actor"), ("x", .number x.toInt), ("y", .number y.toInt),
      ("facing", .number facing.toNat)]
  | .cursor name => [("kind", .text "cursor"), ("name", .text name)]
  | .talk speaker text =>
    [("kind", .text "talk"), ("speaker", .number speaker.toNat), ("text", .text text)]
  | .palette name => [("kind", .text "palette"), ("name", .text name)]
  | .effect name => [("kind", .text "effect"), ("name", .text name)]
  | .redraw r => [
      ("kind", .text "redraw"),
      ("rect", .object [
        ("x1", .number r.x1.toInt), ("y1", .number r.y1.toInt), ("x2", .number r.x2.toInt),
        ("y2", .number r.y2.toInt)])]

namespace CommandLine

structure LoggedEvent where
  sequence : Nat
  tick : Nat
  event : HostEvent

def LoggedEvent.toJson (e : LoggedEvent) : Json :=
  .object ([("sequence", .number e.sequence), ("tick", .number e.tick)] ++ e.event.fields)

def LoggedEvent.line (e : LoggedEvent) : String :=
  let tick := Text.padLeft ' ' 4 (toString e.tick)
  s!"  [{tick}] {e.event.describe}"

/-- The event log of a run that ended in a room. -/
def eventLog (room : UInt16) (ticks : Nat) (events : List LoggedEvent) : String :=
  Json.render (.object [
    ("room", .number room.toNat), ("ticks", .number ticks),
    ("events", .array (events.map LoggedEvent.toJson))])

/-- The lines about the room, the inventory and the scripts of a session. -/
def summary (s : Session) : List String :=
  let objects := (s.room.map (·.objects.objects)).getD []
  let inventory := s.inventory.objects.length
  let queued := s.interpreter.queue.length
  ["", s!"Current room: {room s.rooms.current} (previous {room s.rooms.previous})"] ++
    (if objects.isEmpty then [] else "Objects:" :: objects.map object) ++
    (if inventory = 0 then [] else [s!"Inventory: {inventory} objects"]) ++
    if queued = 0 then [] else [s!"Scripts still queued: {queued}"]
where
  room (id : UInt16) : String := Text.padLeft '0' 4 (toString id)
  object (o : Object) : String :=
    let r := o.rect
    s!"  - {Text.padRight 16 o.name} ({r.x1}, {r.y1})-({r.x2}, {r.y2})"

/-- The lines about an open conversation. -/
def choices (name : String) (lines : List DialogueLine) : List String :=
  ["", s!"Conversation {name} waiting for a choice:"] ++
    lines.map fun line => s!"  - {Text.padRight 12 line.entry} {line.text}"

end CommandLine
end Adventure
