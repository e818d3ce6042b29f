import Adventure.Text.Letter
import Adventure.Text.Quoted
/-! What a player can do to an object. -/
namespace Adventure

inductive Verb where
  | go
  | look
  | use
  deriving DecidableEq, Repr

namespace Verb

def all : List Verb := [.go, .look, .use]

def keyword : Verb → String
  | .go => "Go"
  | .look => "Look"
  | .use => "Use"

def ofText? (s : String) : Option Verb :=
  all.find? fun verb => Text.same verb.keyword s

/-- The complaint about a word that is no verb. -/
def unknownMessage (s : String) : String :=
  s!"unknown verb {Text.quote s} (expected go, look or use)"

end Verb

/-- One value for each verb. -/
structure PerVerb (α : Type) where
  go : α
  look : α
  use : α
  deriving DecidableEq, Repr

namespace PerVerb
variable {α β : Type}

def const (value : α) : PerVerb α :=
  ⟨value, value, value⟩

def get (p : PerVerb α) : Verb → α
  | .go => p.go
  | .look => p.look
  | .use => p.use

def set (p : PerVerb α) (verb : Verb) (value : α) : PerVerb α :=
  match verb with
  | .go => { p with go := value }
  | .look => { p with look := value }
  | .use => { p with use := value }

def map (f : α → β) (p : PerVerb α) : PerVerb β :=
  ⟨f p.go, f p.look, f p.use⟩

end PerVerb
end Adventure
