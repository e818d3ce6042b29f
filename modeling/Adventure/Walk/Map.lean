import Adventure.Text.Quoted
/-! Walk maps: for every cell of a room whether it can be walked on. A cell of value 0 is blocked. -/
namespace Adventure

structure WalkMap where
  width : UInt16
  height : UInt16
  /-- Row after row. -/
  cells : Array UInt8
  size_cells : cells.size = width.toNat * height.toNat
  deriving DecidableEq, Repr

namespace WalkMap

inductive Error where
  | empty
  | cellCount (width height : UInt16) (found : Nat)
  | noRows
  | raggedRow (y found expected : Nat)
  | unknownGlyph (glyph : Char) (y : Nat)
  | tooWide
  | tooTall
  | noWidth
  | noHeight
  | truncated (width height : UInt16) (found : Nat)
  deriving DecidableEq, Repr

def area (width height : UInt16) : Nat :=
  width.toNat * height.toNat

def Error.message : Error → String
  | .empty => "walk map must not be empty"
  | .cellCount width height found =>
    s!"walk map {width}x{height} expects {area width height} cells, got {found}"
  | .noRows => "walk map needs at least one row"
  | .raggedRow y found expected => s!"row {y} has {found} columns, expected {expected}"
  | .unknownGlyph glyph y => s!"unexpected walk map glyph {Text.quoteChar glyph} in row {y}"
  | .tooWide => "walk map too wide: out of range integral type conversion attempted"
  | .tooTall => "walk map too tall: out of range integral type conversion attempted"
  | .noWidth => "walk map truncated before width: failed to fill whole buffer"
  | .noHeight => "walk map truncated before height: failed to fill whole buffer"
  | .truncated width height found =>
    s!"walk map truncated: {width}x{height} needs {area width height} cells, found {found}"

def ofCells (width height : UInt16) (cells : Array UInt8) : Except Error WalkMap :=
  if width = 0 ∨ height = 0 then .error .empty
  else if h : cells.size = width.toNat * height.toNat then .ok ⟨width, height, cells, h⟩
  else .error (.cellCount width height cells.size)

def filled (width height : UInt16) (value : UInt8) : WalkMap :=
  ⟨width, height, Array.replicate (width.toNat * height.toNat) value, Array.size_replicate⟩

/-- The cell value of a glyph: `#` is blocked, `.` stands for 1, and digits for themselves. -/
def ofGlyph? (glyph : Char) : Option UInt8 :=
  if glyph == '#' then some 0
  else if glyph == '.' then some 1
  else if glyph.isDigit then some (glyph.toNat - '0'.toNat).toUInt8
  else none

def readGlyphs (y : Nat) : List Char → Except Error (List UInt8)
  | [] => .ok []
  | glyph :: glyphs =>
    match ofGlyph? glyph with
    | none => .error (.unknownGlyph glyph y)
    | some value => do return value :: (← readGlyphs y glyphs)

/-- The cells of rows that all have the same width; `y` counts the rows before. -/
def readRows (width : Nat) : Nat → List String → Except Error (List UInt8)
  | _, [] => .ok []
  | y, row :: rows => do
    if row.length ≠ width then throw (.raggedRow y row.length width)
    let cells ← readGlyphs y row.toList
    return cells ++ (← readRows width (y + 1) rows)

def ofRows (rows : List String) : Except Error WalkMap :=
  match rows with
  | [] => .error .noRows
  | first :: _ => do
    let cells ← readRows first.length 0 rows
    if UInt16.size ≤ first.length then throw .tooWide
    if UInt16.size ≤ rows.length then throw .tooTall
    ofCells first.length.toUInt16 rows.length.toUInt16 cells.toArray

/-- A number of two bytes, the lesser one first. -/
def word (low high : UInt8) : UInt16 :=
  (low.toNat + 256 * high.toNat).toUInt16

def wordBytes (n : UInt16) : List UInt8 :=
  [(n.toNat % 256).toUInt8, (n.toNat / 256).toUInt8]

/-- Reads width, height and one byte for each cell. What comes after the cells is ignored. -/
def parse : List UInt8 → Except Error WalkMap
  | w₀ :: w₁ :: h₀ :: h₁ :: cells =>
    let width := word w₀ w₁
    let height := word h₀ h₁
    if cells.length < area width height then .error (.truncated width height cells.length)
    else ofCells width height (cells.take (area width height)).toArray
  | _ :: _ :: _ => .error .noHeight
  | _ => .error .noWidth

def toBytes (m : WalkMap) : List UInt8 :=
  wordBytes m.width ++ wordBytes m.height ++ m.cells.toList

def index? (m : WalkMap) (x y : UInt16) : Option Nat :=
  if x < m.width ∧ y < m.height then some (y.toNat * m.width.toNat + x.toNat) else none

def get? (m : WalkMap) (x y : UInt16) : Option UInt8 :=
  (m.index? x y).bind (m.cells[·]?)

/-- Changes a cell; outside the map nothing happens. -/
def set (m : WalkMap) (x y : UInt16) (value : UInt8) : WalkMap :=
  match m.index? x y with
  | some i => { m with
      cells := m.cells.setIfInBounds i value
      size_cells := by rw [Array.size_setIfInBounds, m.size_cells] }
  | none => m

def walkableCount (m : WalkMap) : Nat :=
  m.cells.countP (· != 0)

/-- The glyph of a cell; values above 9 have the same one. -/
def glyph (value : UInt8) : Char :=
  if value == 0 then '#'
  else if value == 1 then '.'
  else if value ≤ 9 then Char.ofNat ('0'.toNat + value.toNat)
  else '+'

def rowsOf (width : Nat) : Nat → List UInt8 → List (List UInt8)
  | 0, _ => []
  | height + 1, cells => cells.take width :: rowsOf width height (cells.drop width)

def rows (m : WalkMap) : List String :=
  (rowsOf m.width.toNat m.height.toNat m.cells.toList).map fun row =>
    String.ofList (row.map glyph)

def render (m : WalkMap) : String :=
  String.join (m.rows.map (· ++ "\n"))

end WalkMap
end Adventure
