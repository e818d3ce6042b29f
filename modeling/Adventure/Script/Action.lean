import Adventure.Text.Arguments
import Adventure.Text.Letter
/-! Actions: the single steps of a script. -/
namespace Adventure.Script

inductive ActionKind where
  | moveActor
  | setCursor
  | changeVariables
  | speak
  | playMidi
  | playAnimation
  | playAnimationWait
  | positionIfCameFrom
  | paletteChange
  | startConversation
  | startConversationWait
  | playSound
  | bindSoundVariable
  | waitUntil
  | screenEffect
  | delay
  | requestRedraw
  | unknown
  deriving DecidableEq, Repr

namespace ActionKind

/-- The known kinds with the keywords that name them. -/
def keywords : List (ActionKind × String) := [
  (moveActor, "Move"), (setCursor, "Cursor"), (changeVariables, "Set"), (speak, "Talk"),
  (playMidi, "Midi"), (playAnimation, "Anim"), (playAnimationWait, "AnimWait"),
  (positionIfCameFrom, "IfFrom"), (paletteChange, "Palette"), (startConversation, "Conv"),
  (startConversationWait, "ConvWait"), (playSound, "Sound"), (bindSoundVariable, "SoundVar"),
  (waitUntil, "Wait"), (screenEffect, "Effect"), (delay, "Delay"), (requestRedraw, "Redraw")]

def ofKeyword (keyword : String) : ActionKind :=
  match keywords.find? fun (_, name) => Text.same name keyword with
  | some (kind, _) => kind
  | none => unknown

def keyword? (kind : ActionKind) : Option String :=
  keywords.lookup kind

end ActionKind

structure Action where
  kind : ActionKind
  /-- As it was written. -/
  keyword : String
  args : String
  deriving DecidableEq, Repr

namespace Action

def ofKeyword (keyword args : String) : Action :=
  { kind := .ofKeyword keyword, keyword, args := Text.trim args }

def arguments (a : Action) : List String :=
  Text.arguments a.args

def numbers? (a : Action) : Option (List Int32) :=
  (Text.numbers a.arguments).toOption

/-- All arguments as one name. -/
def name? (a : Action) : Option String :=
  let name := Text.trim a.args
  if name.isEmpty then none else some name

end Action
end Adventure.Script
