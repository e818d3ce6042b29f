import Adventure.Text.Line
/-! Reading a definition text line by line. The latest line can be put back once, so that a parser may
stop at the first line that is not its own. -/
namespace Adventure.Text

structure Reader where
  file : String
  /-- The lines read, latest first. -/
  before : List Line
  /-- The lines to come. -/
  after : List Line
  /-- Whether the latest line was read since the last putting back. -/
  fresh : Bool
  deriving DecidableEq, Repr

namespace Reader

def ofText (file text : String) : Reader :=
  { file, before := [], after := lines text, fresh := false }

def ofBytes (file : String) (bytes : List UInt8) : Reader :=
  ofText file (decodeLossy bytes)

def lines (r : Reader) : List Line :=
  r.before.reverse ++ r.after

def peek? (r : Reader) : Option Line :=
  r.after.head?

def atEnd (r : Reader) : Bool :=
  r.after.isEmpty

def next? (r : Reader) : Option (Line × Reader) :=
  match r.after with
  | [] => none
  | l :: rest => some (l, { r with before := l :: r.before, after := rest, fresh := true })

/-- Un-reads the latest line, if it is fresh. -/
def putBack (r : Reader) : Reader :=
  match r.fresh, r.before with
  | true, l :: rest => { r with before := rest, after := l :: r.after, fresh := false }
  | _, _ => r

def rewind (r : Reader) : Reader :=
  { r with before := [], after := r.lines, fresh := false }

/-- The number of the latest line while it is fresh, else 0. -/
def lineNumber (r : Reader) : Nat :=
  match r.fresh, r.before with
  | true, l :: _ => l.number
  | _, _ => 0

/-- Reads on as long as `p` holds. The first other line is read and put back. -/
def takeWhile (p : Line → Bool) (r : Reader) : List Line × Reader :=
  let taken := r.after.takeWhile p
  let rest := r.after.dropWhile p
  (taken, {
    r with
    before := taken.reverse ++ r.before
    after := rest
    fresh := rest.isEmpty && (r.fresh || !taken.isEmpty) })

theorem length_after_of_next? {r r' : Reader} {l : Line} (h : r.next? = some (l, r')) :
    r'.after.length < r.after.length := by
  unfold next? at h
  split at h
  · cases h
  · next hr => cases h; simp [hr]

theorem length_after_takeWhile_le (p : Line → Bool) (r : Reader) :
    (r.takeWhile p).2.after.length ≤ r.after.length := by
  simp only [takeWhile]
  exact (List.dropWhile_sublist p).length_le

end Reader
end Adventure.Text
