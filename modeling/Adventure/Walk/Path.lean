import Adventure.Walk.Grid
import Adventure.Walk.Search
/-! Ways across the grid, given by the points where they turn. -/
namespace Adventure.Walk.Grid

/-- The grid as the search sees it; the neighbours are looked up in a table. -/
def terrain (g : Grid) (goal : Nat) : Terrain :=
  let table := Array.ofFn fun i : Fin g.area => g.neighbours i
  let estimates := Array.ofFn fun i : Fin g.area => g.estimate goal i
  { neighbours := fun i => table.getD i []
    estimate := fun i => estimates.getD i 0
    goal }

/-- The cells of a shortest way between two walkable cells. -/
def cellPath? (g : Grid) (start goal : Nat) : Option (List Nat) :=
  search (g.terrain goal) g.area (g.expansion * g.area) (g.area + max g.width g.height + 1) start

/-- The direction from a cell to another. -/
def direction (g : Grid) (a b : Nat) : Int × Int :=
  ((g.column b - g.column a).sign, (g.row b - g.row a).sign)

/-- The cells after the first where the direction changes, and the last cell. -/
def turns (g : Grid) : List Nat → List Nat
  | a :: b :: c :: rest =>
    if g.direction a b = g.direction b c then turns g (b :: c :: rest)
    else b :: turns g (b :: c :: rest)
  | [_, b] => [b]
  | _ => []

def corners (g : Grid) (cells : List Nat) : List Nat :=
  cells.take 1 ++ g.turns cells

def isCell (g : Grid) (cell : Int × Int) (index : Nat) : Bool :=
  (g.column index, g.row index) == cell

/-- Drops the first cell if it is the one the point lies in. -/
def dropFirst (g : Grid) (p : Point) : List Nat → List Nat
  | [] => []
  | index :: rest => if g.isCell (g.cellOf p) index then rest else index :: rest

/-- The way through the centres of the corners, from one point to another. Corners in the end points'
own cells are left out at either end. -/
def waypoints (g : Grid) (start goal : Point) (cells : List Nat) : List Point :=
  let kept := g.dropFirst start (g.corners cells)
  let kept := (g.dropFirst goal kept.reverse).reverse
  start :: (kept.map g.center ++ [goal])

/-- A shortest way between two points, or none if it does not exist. Points outside the walkable cells
stand for the cells nearest to them. -/
def findPath (g : Grid) (start goal : Point) : Option (List Point) := do
  let a ← g.nearest? (g.cellOf start).1 (g.cellOf start).2
  let b ← g.nearest? (g.cellOf goal).1 (g.cellOf goal).2
  if a = b then return [start, goal]
  return g.waypoints start goal (← g.cellPath? a b)

end Adventure.Walk.Grid
