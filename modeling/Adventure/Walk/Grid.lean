import Adventure.Walk.Map
/-! The grid of cells on the screen. Points lie in cells of `cellSize` pixels; the walkable cells are those
of the room's walk map. -/
namespace Adventure.Walk

structure Point where
  x : Int
  y : Int
  deriving DecidableEq, Repr

structure Grid where
  width : Nat
  height : Nat
  /-- Pixels along the side of a cell. -/
  cellSize : UInt32
  /-- The values of the cells, row after row; 0 is blocked. -/
  values : Array UInt8
  size_values : values.size = width * height
  /-- A search may reach so many cells for each cell of the grid. -/
  expansion : Nat

namespace Grid

def ofScreen (screenWidth screenHeight cellSize : UInt32) (expansion : Nat) : Grid :=
  let cellSize := max cellSize 1
  let width := max (screenWidth / cellSize).toNat 1
  let height := max (screenHeight / cellSize).toNat 1
  { width, height, cellSize, expansion
    values := Array.replicate (width * height) 0
    size_values := Array.size_replicate }

structure SizeMismatch where
  map : WalkMap
  width : Nat
  height : Nat

def SizeMismatch.message (e : SizeMismatch) : String :=
  s!"walk map is {e.map.width}x{e.map.height} but the grid is {e.width}x{e.height}"

/-- Takes over the cells of a map of the same size. -/
def setMap (g : Grid) (m : WalkMap) : Except SizeMismatch Grid :=
  if h : m.width.toNat = g.width ∧ m.height.toNat = g.height then
    .ok { g with values := m.cells, size_values := by rw [m.size_cells, h.1, h.2] }
  else .error ⟨m, g.width, g.height⟩

def clear (g : Grid) : Grid :=
  { g with
    values := Array.replicate (g.width * g.height) 0
    size_values := Array.size_replicate }

def area (g : Grid) : Nat :=
  g.width * g.height

def index? (g : Grid) (cx cy : Int) : Option Nat :=
  if 0 ≤ cx ∧ cx < g.width ∧ 0 ≤ cy ∧ cy < g.height then some (cy.toNat * g.width + cx.toNat)
  else none

def column (g : Grid) (index : Nat) : Int :=
  (index % g.width : Nat)

def row (g : Grid) (index : Nat) : Int :=
  (index / g.width : Nat)

def isOpen (g : Grid) (index : Nat) : Bool :=
  g.values.getD index 0 != 0

def side (g : Grid) : Int :=
  g.cellSize.toInt32.toInt

def cellOf (g : Grid) (p : Point) : Int × Int :=
  (p.x / g.side, p.y / g.side)

def center (g : Grid) (index : Nat) : Point :=
  ⟨g.column index * g.side + g.side.tdiv 2, g.row index * g.side + g.side.tdiv 2⟩

def isWalkable (g : Grid) (p : Point) : Bool :=
  let (cx, cy) := g.cellOf p
  (g.index? cx cy).any g.isOpen

/-- The steps to the eight neighbours: the straight ones first. -/
def directions : List (Int × Int) :=
  [(0, -1), (1, 0), (0, 1), (-1, 0), (1, -1), (1, 1), (-1, 1), (-1, -1)]

def neighbours (g : Grid) (index : Nat) : List Nat :=
  (directions.filterMap fun (dx, dy) => g.index? (g.column index + dx) (g.row index + dy)).filter
    g.isOpen

/-- Never more than the steps that are left after the next one: each step brings the column and the row
nearer by at most 1. -/
def estimate (g : Grid) (goal index : Nat) : Nat :=
  max (g.column index - g.column goal).natAbs (g.row index - g.row goal).natAbs - 1

def squaredDistance (g : Grid) (cx cy : Int) (index : Nat) : Int :=
  (g.column index - cx) * (g.column index - cx) + (g.row index - cy) * (g.row index - cy)

/-- The nearer of two cells; the first one if they are equally near. -/
def nearer (g : Grid) (cx cy : Int) (best : Option Nat) (index : Nat) : Option Nat :=
  match best with
  | none => some index
  | some closest =>
    if g.squaredDistance cx cy index < g.squaredDistance cx cy closest then some index
    else some closest

/-- The cell itself if it is walkable, else the nearest walkable cell. -/
def nearest? (g : Grid) (cx cy : Int) : Option Nat :=
  match (g.index? cx cy).filter g.isOpen with
  | some index => some index
  | none => ((List.range g.area).filter g.isOpen).foldl (g.nearer cx cy) none

end Grid
end Adventure.Walk
