import Adventure.Conversation.Basic
import Adventure.ParseError
/-! Conversations as texts define them. A `Node` line opens a node and an `Entry` line an entry of the
latest node; the other lines belong to the latest entry, or to the node itself. -/
namespace Adventure

open Text (Line)

def Goto.ofLine (file : String) (l : Line) : Except ParseError Goto :=
  let (target, condition) := (Text.cut? Chars.isAsciiBlank l.args).getD (l.args, "")
  let target := Text.dropEndWhile (· == ',') target
  if target.isEmpty then .error (l.argumentCount file 1 0)
  else .ok { target, condition := Text.trim condition }

def Node.named (name : String) : Node :=
  { name, gotos := [], fallthrough := none, fallthroughNum := 0, entries := [] }

/-- Sets when and where the node falls through. -/
def Node.setFallthrough (node : Node) (file : String) (l : Line) : Except ParseError Node :=
  match l.arguments with
  | [num] => do
    return { node with fallthroughNum := (← l.readNumber file Text.readUInt64 num).toNat }
  | [num, target] => do
    let num ← l.readNumber file Text.readUInt64 num
    return { node with fallthroughNum := num.toNat, fallthrough := some target }
  | args => .error (l.argumentCount file 2 args.length)

def Entry.named (name : String) (node : Nat) : Entry :=
  { name, text := "", visible := true, persist := false, initial := true, destroyed := false, node
    replies := [], hides := [], unhides := [], destroys := [], gotos := [], changes := [] }

def Entry.readReply (file : String) (l : Line) : Except ParseError (UInt8 × String) :=
  match Text.cut? Chars.isAsciiBlank l.args with
  | none => .error (l.argumentCount file 2 l.arguments.length)
  | some (speaker, text) => do
    return (← l.readNumber file Text.readUInt8 speaker, Text.trim text)

def Entry.addLine (e : Entry) (file : String) (l : Line) : Except ParseError Entry :=
  if l.is "Text" then .ok { e with text := l.args }
  else if l.is "Hidden" then .ok { e with initial := false, visible := false }
  else if l.is "Persist" then .ok { e with persist := true }
  else if l.is "Reply" then do return { e with replies := e.replies ++ [← readReply file l] }
  else if l.is "Hide" then .ok { e with hides := e.hides ++ l.arguments }
  else if l.is "Unhide" then .ok { e with unhides := e.unhides ++ l.arguments }
  else if l.is "Destroy" then .ok { e with destroys := e.destroys ++ l.arguments }
  else if l.is "Goto" then do return { e with gotos := e.gotos ++ [← Goto.ofLine file l] }
  else if l.is "Set" then .ok { e with changes := e.changes ++ [l.args] }
  else .error (l.unknownSection file)

namespace Conversation

/-- The part of a conversation that has been read, latest nodes and entries first. -/
structure Draft where
  nodes : List Node
  entries : List Entry
  deriving DecidableEq, Repr

def Draft.addLine (file : String) (d : Draft) (l : Line) : Except ParseError Draft :=
  if l.is "Node" then
    if l.args.isEmpty then .error (l.argumentCount file 1 0)
    else .ok { d with nodes := .named l.args :: d.nodes }
  else
    match d.nodes with
    | [] => .error (l.unexpected file .node)
    | node :: nodes =>
      if l.is "Entry" then
        if l.args.isEmpty then .error (l.argumentCount file 1 0)
        else .ok {
          nodes := { node with entries := node.entries ++ [d.entries.length] } :: nodes
          entries := .named l.args nodes.length :: d.entries }
      else if l.is "Fallthrough" then do
        return { d with nodes := (← node.setFallthrough file l) :: nodes }
      else if l.is "Goto" && node.entries.isEmpty then do
        return { d with nodes := { node with gotos := node.gotos ++ [← Goto.ofLine file l] } :: nodes }
      else
        match node.entries, d.entries with
        | _ :: _, e :: entries => do return { d with entries := (← e.addLine file l) :: entries }
        | _, _ => .error (l.unexpected file .entry)

/-- Reads the whole text. The conversation starts at its first node. -/
def parse (name : String) (r : Text.Reader) : Except ParseError Conversation := do
  let d ← r.after.foldlM (Draft.addLine r.file) { nodes := [], entries := [] }
  if d.nodes.isEmpty then throw (.unexpectedEnd r.here .conversation)
  return { name, nodes := d.nodes.reverse, entries := d.entries.reverse, current := some 0 }

end Conversation
end Adventure
