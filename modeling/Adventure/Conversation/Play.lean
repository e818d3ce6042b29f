import Adventure.Conversation.Basic
import Adventure.Variables.Basic
/-! Playing a conversation: moving on where nothing is left to pick, offering the entries of the
current node, and picking one of them. -/
namespace Adventure.Conversation

/-- The node that a target names; none ends the conversation. -/
def land? (c : Conversation) (target : String) : Option Nat :=
  if Text.same target exitTarget then none
  else c.nodes.findIdx? fun node => Text.same node.name target

def openGoto? (gotos : List Goto) (vars : Variables) : Option Goto :=
  gotos.find? fun g => vars.meets g.condition

def shownCount (c : Conversation) (node : Node) : Nat :=
  (node.entries.filter c.isShownAt).length

inductive Course where
  | stay
  | go (next : Option Nat)
  deriving DecidableEq, Repr

/-- A node that shows no entry is left by its first open goto, and one that shows no more entries than
its fallthrough number by its fallthrough. -/
def course (c : Conversation) (vars : Variables) (node : Node) : Course :=
  let shown := c.shownCount node
  match if shown = 0 then openGoto? node.gotos vars else none with
  | some g => .go (c.land? g.target)
  | none =>
    if shown ≤ node.fallthroughNum then .go (node.fallthrough.bind c.land?)
    else .stay

/-- Follows the course through at most `visits` nodes. -/
def settleWithin (c : Conversation) (vars : Variables) : Nat → Option Nat → Option Nat
  | _, none => none
  | 0, some _ => none
  | visits + 1, some index =>
    match c.nodes[index]? with
    | none => none
    | some node =>
      match c.course vars node with
      | .stay => some index
      | .go next => settleWithin c vars visits next

/-- Moves on until a node has entries to offer. A course that visits more nodes than there are goes in
a circle, and the conversation ends. -/
def settle (c : Conversation) (vars : Variables) : Conversation :=
  { c with current := c.settleWithin vars (c.nodes.length + 1) c.current }

def offered (c : Conversation) : List DialogueLine :=
  match c.currentNode? with
  | none => []
  | some node => (node.entries.filterMap c.entryAt?).filterMap fun e =>
    if e.isShown then some ⟨e.name, 0, e.text⟩ else none

def currentLines (c : Conversation) (vars : Variables) : List DialogueLine × Conversation :=
  let c := c.settle vars
  (c.offered, c)

/-- The entry that a name means at a node: one of the node's own, else the first in the file. -/
def resolve? (c : Conversation) (node : Node) (name : String) : Option Nat :=
  (node.entries.find? (c.isNamed name)).or
    (c.entries.findIdx? fun e => Text.same e.name name)

def updateNamed (node : Node) (f : Entry → Entry) (c : Conversation) (names : List String) :
    Conversation :=
  names.foldl (fun c name =>
    match c.resolve? node name with
    | some index => { c with entries := c.entries.modify index f }
    | none => c) c

/-- The index of the entry that a name picks: the first one of the node with the name, if shown. -/
def selected? (c : Conversation) (node : Node) (name : String) : Option Nat :=
  (node.entries.find? (c.isNamed name)).filter c.isShownAt

/-- The flags after an entry was picked: it is hidden, then come its hides, unhides and destroys. -/
def applyEntry (c : Conversation) (node : Node) (index : Nat) (e : Entry) : Conversation :=
  let hide := fun (e : Entry) => { e with visible := false }
  let c := { c with entries := c.entries.modify index hide }
  let c := updateNamed node hide c e.hides
  let c := updateNamed node (fun e => { e with visible := true }) c e.unhides
  updateNamed node (fun e => { e with visible := false, destroyed := true }) c e.destroys

def follow (c : Conversation) (gotos : List Goto) (vars : Variables) : Conversation :=
  match openGoto? gotos vars with
  | some g => { c with current := c.land? g.target }
  | none => c

structure Picked where
  accepted : Bool
  conversation : Conversation
  vars : Variables
  deriving DecidableEq, Repr

/-- Picks a shown entry of the current node. Anything else is refused and changes nothing. -/
def pick (c : Conversation) (name : String) (vars : Variables) : Picked :=
  let choice? := do
    let node ← c.currentNode?
    let index ← c.selected? node name
    let e ← c.entryAt? index
    return (node, index, e)
  match choice? with
  | none => ⟨false, c, vars⟩
  | some (node, index, e) =>
    let vars := e.changes.foldl Variables.change vars
    ⟨true, ((c.applyEntry node index e).follow e.gotos vars).settle vars, vars⟩

end Adventure.Conversation
