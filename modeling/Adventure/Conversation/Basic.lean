import Adventure.Text.Letter
/-! Conversations: nodes with entries to pick from. Every link between them is an index. -/
namespace Adventure

/-- A way to another node, open while its condition holds. -/
structure Goto where
  target : String
  condition : String
  deriving DecidableEq, Repr

structure Node where
  name : String
  gotos : List Goto
  /-- Where the conversation goes when no more than `fallthroughNum` entries are shown. -/
  fallthrough : Option String
  fallthroughNum : Nat
  entries : List Nat
  deriving DecidableEq, Repr

structure Entry where
  name : String
  text : String
  visible : Bool
  persist : Bool
  /-- Whether the entry is visible at the start. -/
  initial : Bool
  destroyed : Bool
  node : Nat
  /-- Who answers what. -/
  replies : List (UInt8 × String)
  hides : List String
  unhides : List String
  destroys : List String
  gotos : List Goto
  changes : List String
  deriving DecidableEq, Repr

def Entry.isShown (e : Entry) : Bool :=
  e.visible && !e.destroyed

/-- What is said, and the entry it belongs to. -/
structure DialogueLine where
  entry : String
  speaker : UInt8
  text : String
  deriving DecidableEq, Repr

structure ConversationSnapshot where
  name : String
  current : Option UInt32
  visible : List Bool
  destroyed : List Bool
  deriving DecidableEq, Repr

structure Conversation where
  name : String
  nodes : List Node
  entries : List Entry
  /-- The index of the current node; none when the conversation has ended. -/
  current : Option Nat
  deriving DecidableEq, Repr

namespace Conversation

def resourceName (name : String) : String :=
  name ++ ".cnv"

def exitTarget : String := "exit"

def isActive (c : Conversation) : Bool :=
  c.current.isSome

def currentNode? (c : Conversation) : Option Node :=
  c.current.bind (c.nodes[·]?)

def entry? (c : Conversation) (name : String) : Option Entry :=
  c.entries.find? fun e => Text.same e.name name

def entryAt? (c : Conversation) (index : Nat) : Option Entry :=
  c.entries[index]?

def isNamed (c : Conversation) (name : String) (index : Nat) : Bool :=
  (c.entryAt? index).any fun e => Text.same e.name name

def isShownAt (c : Conversation) (index : Nat) : Bool :=
  (c.entryAt? index).any Entry.isShown

def replies (c : Conversation) (name : String) : List DialogueLine :=
  match c.entry? name with
  | some e => e.replies.map fun (speaker, text) => ⟨e.name, speaker, text⟩
  | none => []

def snapshot (c : Conversation) : ConversationSnapshot where
  name := c.name
  current := c.current.map Nat.toUInt32
  visible := c.entries.map Entry.visible
  destroyed := c.entries.map Entry.destroyed

def reset (c : Conversation) : Conversation :=
  { c with
    entries := c.entries.map fun e => { e with visible := e.initial, destroyed := false }
    current := some 0 }

def finish (c : Conversation) : Conversation :=
  { c with current := none }

/-- Applies a snapshot. One that does not fit the entries resets the conversation. -/
def restore (c : Conversation) (s : ConversationSnapshot) : Conversation :=
  if s.visible.length = c.entries.length ∧ s.destroyed.length = c.entries.length then
    { c with
      entries := (c.entries.zip (s.visible.zip s.destroyed)).map fun (e, visible, destroyed) =>
        { e with visible, destroyed }
      current := (s.current.map UInt32.toNat).filter (· < c.nodes.length) }
  else c.reset

end Conversation
end Adventure
