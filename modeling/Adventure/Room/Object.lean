import Adventure.Room.ObjectDef
import Adventure.Script.Library
/-! Objects on the screen or in the inventory, with the chunks that the library holds for them. -/
namespace Adventure

open Script (ChunkId Library)

structure Object where
  name : String
  rect : Rect
  chunks : PerVerb (List ChunkId)
  /-- For each verb the latest answer to `isActive`, with the write count at which it was given. -/
  answers : PerVerb (Option (UInt32 × Bool))
  deriving DecidableEq, Repr

namespace Object

def install (d : ObjectDef) (library : Library) : Object × Library :=
  let (go, library) := library.adoptAll d.chunks.go
  let (look, library) := library.adoptAll d.chunks.look
  let (use, library) := library.adoptAll d.chunks.use
  ({ name := d.name, rect := d.rect, chunks := ⟨go, look, use⟩, answers := .const none }, library)

/-- Reads one object. Nothing is installed if the text is malformed. -/
def parse (r : Text.Reader) (library : Library) : Except ParseError (Object × Library × Text.Reader) := do
  let (d, r) ← ObjectDef.read r
  let (object, library) := install d library
  return (object, library, r)

def chunkIds (o : Object) : List ChunkId :=
  o.chunks.go ++ o.chunks.look ++ o.chunks.use

def destroy (o : Object) (library : Library) : Library :=
  library.releaseAll o.chunkIds

/-- Whether some chunk for the verb is not retired and has its conditions met. -/
def evaluate (o : Object) (verb : Verb) (store : Script.Store) (vars : Variables) : Bool :=
  (o.chunks.get verb).any fun id =>
    (store.get? id).any fun chunk => !chunk.retired && chunk.conditionsMet vars

/-- Whether the verb would do something. An answer is kept until the next write to a variable. -/
def isActive (o : Object) (verb : Verb) (store : Script.Store) (vars : Variables) : Bool × Object :=
  let renew :=
    let active := o.evaluate verb store vars
    (active, { o with answers := o.answers.set verb (some (vars.lastChanged, active)) })
  match o.answers.get verb with
  | some (count, active) => if count = vars.lastChanged then (active, o) else renew
  | none => renew

def activeVerbs (store : Script.Store) (vars : Variables) : List Verb → Object → List Verb × Object
  | [], o => ([], o)
  | verb :: verbs, o =>
    let (active, o) := o.isActive verb store vars
    let (rest, o) := activeVerbs store vars verbs o
    (if active then verb :: rest else rest, o)

end Object

/-- The objects of a room or of the inventory, in the order of the text. -/
structure Container where
  objects : List Object
  deriving DecidableEq, Repr

namespace Container

def empty : Container := ⟨[]⟩

instance : Inhabited Container := ⟨empty⟩

def install : List ObjectDef → Library → Container × Library
  | [], library => (empty, library)
  | d :: ds, library =>
    let (object, library) := Object.install d library
    let (container, library) := install ds library
    (⟨object :: container.objects⟩, library)

/-- Reads a whole container. Nothing is installed if the text is malformed. -/
def parse (r : Text.Reader) (library : Library) :
    Except ParseError (Container × Library × Text.Reader) := do
  let (ds, r) ← ObjectDef.readContainer r
  let (container, library) := install ds library
  return (container, library, r)

def chunkIds (c : Container) : List ChunkId :=
  c.objects.flatMap Object.chunkIds

def destroy (c : Container) (library : Library) : Library :=
  c.objects.foldl (fun library o => o.destroy library) library

def find? (c : Container) (name : String) : Option Object :=
  c.objects.find? fun o => Text.same o.name name

def objectAt? (c : Container) (x y : Int32) : Option Object :=
  c.objects.find? fun o => o.rect.contains x y

/-- Changes the first object with `p`, and hands out what else comes of it. -/
def updateFirst {α : Type} (p : Object → Bool) (f : Object → α × Object) :
    List Object → Option (α × List Object)
  | [] => none
  | o :: os =>
    if p o then
      let (result, o) := f o
      some (result, o :: os)
    else (updateFirst p f os).map fun (result, os) => (result, o :: os)

def isActive? (c : Container) (name : String) (verb : Verb) (store : Script.Store)
    (vars : Variables) : Option (Bool × Container) :=
  (updateFirst (fun o => Text.same o.name name) (·.isActive verb store vars) c.objects).map
    fun (active, objects) => (active, ⟨objects⟩)

def remove? (c : Container) (name : String) (library : Library) : Option (Container × Library) :=
  (c.find? name).map fun o =>
    (⟨c.objects.eraseP fun o => Text.same o.name name⟩, o.destroy library)

end Container
end Adventure
