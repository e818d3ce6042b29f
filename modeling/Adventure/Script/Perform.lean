import Adventure.Script.Action
import Adventure.Script.Scene
/-! What each kind of action does. -/
namespace Adventure.Script

namespace Action

/-- The numbers `room x y [facing]`; without `facing` it is 0. -/
def placement? (a : Action) : Option (UInt16 × Position) :=
  match a.numbers? with
  | some [room, x, y] => place room x y 0
  | some [room, x, y, facing] => place room x y facing
  | _ => none
where
  place (room x y facing : Int32) : Option (UInt16 × Position) :=
    if 0 ≤ room.toInt ∧ room.toInt < 0x10000 ∧ 0 ≤ facing.toInt ∧ facing.toInt < 0x100 then
      some (room.toInt.toNat.toUInt16, ⟨x, y, facing.toInt.toNat.toUInt8⟩)
    else none

/-- The speaker and the words of a line of speech. -/
def speech? (a : Action) : Option (UInt8 × String) :=
  match Text.cut? Chars.isAsciiBlank a.args with
  | none => none
  | some (speaker, words) =>
    match Text.readUInt8 speaker with
    | .error _ => none
    | .ok speaker =>
      let words := Text.trim words
      if words.isEmpty then none else some (speaker, words)

/-- The name of a sound and its number; without a number it is 0. -/
def sound? (a : Action) : Option (String × UInt32) :=
  match a.arguments with
  | [name] => some (name, 0)
  | [name, id] => (Text.readUInt32 id).toOption.map (name, ·)
  | _ => none

def soundBinding? (a : Action) : Option SoundBinding :=
  match a.arguments with
  | [id, name] => (Text.readUInt32 id).toOption.map (⟨·, name⟩)
  | _ => none

/-- The milliseconds of a delay. -/
def milliseconds? (a : Action) : Option Moment :=
  match a.numbers? with
  | some [ms] => if 0 ≤ ms.toInt then some ms.toInt.toNat.toUInt64 else none
  | _ => none

def rect? (a : Action) : Option Rect :=
  match a.numbers? with
  | some [x1, y1, x2, y2] => some ⟨x1, y1, x2, y2⟩
  | _ => none

/-- Acts on an argument that is well formed; a malformed one is invalid and changes nothing. -/
def withArgument {α : Type} (argument : Option α) (s : Scene) (act : α → Outcome × Scene) :
    Outcome × Scene :=
  match argument with
  | some value => act value
  | none => (.invalid, s)

/-- Performs the action. -/
def perform (situation : Situation) (a : Action) (s : Scene) : Outcome × Scene :=
  match a.kind with
  | .moveActor => withArgument a.placement? s fun (room, position) =>
    if room == 0 || room == situation.rooms.current then
      (.ok, s.tell (.moveActor position.x position.y position.facing))
    else (.ok, s.request (.changeRoom room (some position)))
  | .setCursor => withArgument a.name? s fun name => (.ok, s.tell (.cursor name))
  | .changeVariables =>
    if a.args.isEmpty then (.invalid, s) else (.ok, { s with vars := s.vars.change a.args })
  | .speak => withArgument a.speech? s fun (speaker, text) => (.ok, s.tell (.talk speaker text))
  | .playMidi => withArgument a.name? s fun name => (.ok, s.tell (.midi name))
  | .playAnimation => withArgument a.name? s fun name =>
    (.ok, { s with host := s.host.playMovie name false })
  | .playAnimationWait => withArgument a.name? s fun name =>
    (.wait .movie, { s with host := s.host.playMovie name true })
  | .positionIfCameFrom => withArgument a.placement? s fun (room, position) =>
    if situation.rooms.previous == room then
      (.ok, s.tell (.moveActor position.x position.y position.facing))
    else (.stop, s)
  | .paletteChange => withArgument a.name? s fun name => (.ok, s.tell (.palette name))
  | .startConversation => withArgument a.name? s fun name =>
    (.ok, s.request (.startConversation name))
  | .startConversationWait => withArgument a.name? s fun name =>
    (.wait .conversation, s.request (.startConversation name))
  | .playSound => withArgument a.sound? s fun (name, id) =>
    (.ok, { s with host := s.host.playSound name id })
  | .bindSoundVariable => withArgument a.soundBinding? s fun binding =>
    (.ok, { s with bindings := s.bindings ++ [binding] })
  | .waitUntil => if s.vars.meets a.args then (.ok, s) else (.hold, s)
  | .screenEffect => withArgument a.name? s fun name => (.ok, s.tell (.effect name))
  | .delay => withArgument a.milliseconds? s fun ms => (.wait (.delay (s.host.now.after ms)), s)
  | .requestRedraw => withArgument a.rect? s fun rect => (.ok, s.tell (.redraw rect))
  | .unknown => (.invalid, s)

end Action
end Adventure.Script
