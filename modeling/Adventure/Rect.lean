/-! Rectangles on the screen. All four edges belong to them. -/
namespace Adventure

structure Rect where
  x1 : Int32
  y1 : Int32
  x2 : Int32
  y2 : Int32
  deriving DecidableEq, Repr, Inhabited

def Rect.contains (r : Rect) (x y : Int32) : Bool :=
  r.x1 ≤ x && x ≤ r.x2 && r.y1 ≤ y && y ≤ r.y2

end Adventure
