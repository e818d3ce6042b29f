import Adventure.Rect
import Adventure.Room.Verb
import Adventure.Script.Chunk
/-! Objects as a text defines them. An object opens with `Object NAME` and runs up to `End` or to a
block keyword that is not its own; a container opens with `Objects COUNT`. -/
namespace Adventure

open Text (Line Reader)

theorem Script.length_after_of_readChunks {r r' : Reader} {chunks : List Script.Chunk}
    (h : Script.readChunks r = .ok (chunks, r')) : r'.after.length ≤ r.after.length := by
  unfold Script.readChunks at h
  have hle := Reader.length_after_takeWhile_le (!·.isBlockKeyword) r
  generalize r.takeWhile (!·.isBlockKeyword) = p at h hle
  obtain ⟨lines, r''⟩ := p
  simp only [bind, Except.bind] at h
  split at h
  · cases h
  · cases h; exact hle

structure ObjectDef where
  name : String
  rect : Rect
  chunks : PerVerb (List Script.Chunk)
  deriving DecidableEq, Repr

namespace ObjectDef

/-- The rectangle that a line gives. -/
def readRect (file : String) (l : Line) : Except ParseError Rect :=
  match l.arguments with
  | [x1, y1, x2, y2] => do
    let x1 ← l.readNumber file Text.readInt32 x1
    let y1 ← l.readNumber file Text.readInt32 y1
    let x2 ← l.readNumber file Text.readInt32 x2
    let y2 ← l.readNumber file Text.readInt32 y2
    return ⟨x1, y1, x2, y2⟩
  | args => .error (l.argumentCount file 4 args.length)

def addChunks (d : ObjectDef) (verb : Verb) (chunks : List Script.Chunk) : ObjectDef :=
  { d with chunks := d.chunks.set verb (d.chunks.get verb ++ chunks) }

/-- Reads what follows the name of an object. -/
def readBody (d : ObjectDef) (r : Reader) : Except ParseError (ObjectDef × Reader) :=
  match _ : r.next? with
  | none => .ok (d, r)
  | some (l, r') =>
    if l.is "Rect" then
      match readRect r.file l with
      | .error e => .error e
      | .ok rect => readBody { d with rect } r'
    else
      match Verb.ofText? l.command with
      | some verb =>
        match _ : Script.readChunks r' with
        | .error e => .error e
        | .ok (chunks, r'') => readBody (d.addChunks verb chunks) r''
      | none =>
        if l.is "End" then .ok (d, r')
        else if l.isBlockKeyword then .ok (d, r'.putBack)
        else .error (l.unknownSection r.file)
termination_by r.after.length
decreasing_by
  · exact Reader.length_after_of_next? (by assumption)
  · exact Nat.lt_of_le_of_lt (Script.length_after_of_readChunks (by assumption))
      (Reader.length_after_of_next? (by assumption))

/-- Reads one object. -/
def read (r : Reader) : Except ParseError (ObjectDef × Reader) :=
  match r.next? with
  | none => .error (.unexpectedEnd r.here .object)
  | some (head, r') =>
    if !head.is "Object" then .error (head.unexpected r.file .object)
    else if head.args.isEmpty then .error (head.argumentCount r.file 1 0)
    else readBody { name := head.args, rect := default, chunks := .const [] } r'

/-- Reads `missing` objects of a container that declares `declared`. -/
def readAll (declared : Nat) : Nat → Reader → Except ParseError (List ObjectDef × Reader)
  | 0, r => .ok ([], r)
  | missing + 1, r =>
    if r.peek?.any (·.is "Object") then do
      let (d, r) ← read r
      let (ds, r) ← readAll declared missing r
      return (d :: ds, r)
    else .error (.shortContainer r.here declared (declared - (missing + 1)))

/-- Reads the heading of a container and the objects that it declares. Memory for them is not reserved beforehand: where
it is, the reading aborts on a number of objects that no memory holds, while here such a container is found short. -/
def readContainer (r : Reader) : Except ParseError (List ObjectDef × Reader) :=
  match r.next? with
  | none => .error (.unexpectedEnd r.here .container)
  | some (head, r') =>
    if !head.is "Objects" then .error (head.unexpected r.file .objects)
    else
      match head.arguments with
      | [count] => do
        let declared ← head.readNumber r.file Text.readUInt64 count
        readAll declared.toNat declared.toNat r'
      | args => .error (head.argumentCount r.file 1 args.length)

theorem length_after_of_readBody {d d' : ObjectDef} {r r' : Reader}
    (h : readBody d r = .ok (d', r')) : r'.after.length ≤ r.after.length := by
  fun_induction readBody d r with
  | case1 => cases h; exact Nat.le_refl _
  | case2 => cases h
  | case3 _ _ _ _ hr _ _ _ ih =>
    exact Nat.le_of_lt (Nat.lt_of_le_of_lt (ih h) (Reader.length_after_of_next? hr))
  | case4 => cases h
  | case5 _ _ _ _ hr _ _ _ _ _ hc ih =>
    exact Nat.le_trans (ih h) (Nat.le_trans (Script.length_after_of_readChunks hc)
      (Nat.le_of_lt (Reader.length_after_of_next? hr)))
  | case6 _ _ _ _ hr => cases h; exact Nat.le_of_lt (Reader.length_after_of_next? hr)
  | case7 _ _ _ _ hr =>
    cases h
    unfold Reader.next? at hr
    split at hr
    · cases hr
    · next hr' => cases hr; simp [Reader.putBack, hr']
  | case8 => cases h

theorem length_after_of_read {d : ObjectDef} {r r' : Reader} (h : read r = .ok (d, r')) :
    r'.after.length < r.after.length := by
  unfold read at h
  split at h
  · cases h
  · next hr =>
    split at h
    · cases h
    · split at h
      · cases h
      · exact Nat.lt_of_le_of_lt (length_after_of_readBody h) (Reader.length_after_of_next? hr)

theorem length_after_of_readAll {declared missing : Nat} {ds : List ObjectDef} {r r' : Reader}
    (h : readAll declared missing r = .ok (ds, r')) : r'.after.length ≤ r.after.length := by
  induction missing generalizing r ds with
  | zero => cases h; exact Nat.le_refl _
  | succ missing ih =>
    unfold readAll at h
    split at h
    · simp only [bind, Except.bind] at h
      split at h
      · cases h
      · next hd =>
        split at h
        · cases h
        · next hds =>
          cases h
          exact Nat.le_trans (ih hds) (Nat.le_of_lt (length_after_of_read hd))
    · cases h

theorem length_after_of_readContainer {ds : List ObjectDef} {r r' : Reader}
    (h : readContainer r = .ok (ds, r')) : r'.after.length < r.after.length := by
  unfold readContainer at h
  split at h
  · cases h
  · next hr =>
    split at h
    · cases h
    · split at h
      · simp only [bind, Except.bind] at h
        split at h
        · cases h
        · exact Nat.lt_of_le_of_lt (length_after_of_readAll h) (Reader.length_after_of_next? hr)
      · cases h

end ObjectDef
end Adventure
