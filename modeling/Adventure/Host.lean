import Adventure.Clock
import Adventure.Rect
/-! What scripts ask of the world outside, and what they can ask about it. The host records every
request. Sounds and movies play until they are finished from outside, or not at all if media are
instant. -/
namespace Adventure

inductive HostEvent where
  | sound (name : String) (id : UInt32)
  | midi (name : String)
  | movie (name : String) (blocking : Bool)
  | changeRoom (room : UInt16)
  | moveActor (x y : Int32) (facing : UInt8)
  | cursor (name : String)
  | talk (speaker : UInt8) (text : String)
  | palette (name : String)
  | effect (name : String)
  | redraw (rect : Rect)
  deriving DecidableEq, Repr

structure Host where
  /-- Oldest first. -/
  events : List HostEvent
  playingSounds : List UInt32
  moviePlaying : Bool
  instantMedia : Bool
  now : Moment
  deriving DecidableEq, Repr

namespace Host

def silent (instantMedia : Bool) : Host :=
  { events := [], playingSounds := [], moviePlaying := false, instantMedia, now := 0 }

def record (h : Host) (event : HostEvent) : Host :=
  { h with events := h.events ++ [event] }

def isSoundPlaying (h : Host) (id : UInt32) : Bool :=
  h.playingSounds.contains id

def playSound (h : Host) (name : String) (id : UInt32) : Host :=
  let h := h.record (.sound name id)
  if h.instantMedia || h.isSoundPlaying id then h
  else { h with playingSounds := id :: h.playingSounds }

def playMovie (h : Host) (name : String) (blocking : Bool) : Host :=
  { h.record (.movie name blocking) with moviePlaying := !h.instantMedia }

def finishSound (h : Host) (id : UInt32) : Host :=
  { h with playingSounds := h.playingSounds.filter (· != id) }

def finishMovie (h : Host) : Host :=
  { h with moviePlaying := false }

def advanceClock (h : Host) (ms : Moment) : Host :=
  { h with now := h.now.after ms }

/-- Hands out the recorded events and forgets them. -/
def takeEvents (h : Host) : List HostEvent × Host :=
  (h.events, { h with events := [] })

def talkedLines (h : Host) : List String :=
  h.events.filterMap fun
    | .talk _ text => some text
    | _ => none

end Host
end Adventure
