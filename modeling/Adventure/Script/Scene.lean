import Adventure.Host
import Adventure.Variables.Basic
/-! What one action of a script sees and touches. -/
namespace Adventure.Script

structure RoomTransition where
  current : UInt16
  previous : UInt16
  deriving DecidableEq, Repr, Inhabited

structure Position where
  x : Int32
  y : Int32
  facing : UInt8
  deriving DecidableEq, Repr

/-- What scripts leave to the session. -/
inductive Request where
  | startConversation (name : String)
  | changeRoom (room : UInt16) (position : Option Position)
  deriving DecidableEq, Repr

/-- What a queued script waits for. -/
inductive Wait where
  | none
  | conversation
  | movie
  | delay (due : Moment)
  deriving DecidableEq, Repr

inductive Outcome where
  | ok
  /-- The action is malformed or unknown; the chunk ends. -/
  | invalid
  /-- The chunk ends here. -/
  | stop
  /-- The action is done; the next one waits. -/
  | wait (reason : Wait)
  /-- The same action is tried again in the next tick. -/
  | hold
  deriving DecidableEq, Repr

/-- Sets a variable to 1 once a sound has stopped. -/
structure SoundBinding where
  id : UInt32
  name : String
  deriving DecidableEq, Repr

/-- What stays the same during a tick. -/
structure Situation where
  rooms : RoomTransition
  conversationActive : Bool
  deriving DecidableEq, Repr

structure Scene where
  vars : Variables
  host : Host
  requests : List Request
  bindings : List SoundBinding
  deriving DecidableEq, Repr

namespace Scene

def tell (s : Scene) (event : HostEvent) : Scene :=
  { s with host := s.host.record event }

def request (s : Scene) (r : Request) : Scene :=
  { s with requests := s.requests ++ [r] }

end Scene

def Wait.isPending (w : Wait) (situation : Situation) (host : Host) : Bool :=
  match w with
  | .none => false
  | .conversation => situation.conversationActive
  | .movie => host.moviePlaying
  | .delay due => host.now < due

end Adventure.Script
