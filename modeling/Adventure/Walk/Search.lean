/-! Search for a shortest way between two nodes, deeper in every round. A round follows all ways whose length
and estimated rest stay within a bound; a node is entered again only at a lower cost. The next
bound is the least sum beyond the present one. -/
namespace Adventure.Walk

structure Terrain where
  neighbours : Nat → List Nat
  /-- Must not exceed the number of steps to the goal. -/
  estimate : Nat → Nat
  goal : Nat

inductive Verdict where
  /-- The nodes from the present one to the goal. -/
  | found (path : List Nat)
  /-- The least sum beyond the bound; none if nothing lies beyond it. -/
  | beyond (sum : Option Nat)
  /-- The round may not enter another new node. -/
  | exhausted
  deriving DecidableEq, Repr

structure Memo where
  /-- The least cost at which each node was entered. -/
  costs : Array (Option Nat)
  /-- How many new nodes may still be entered. -/
  budget : Nat

def least : Option Nat → Option Nat → Option Nat
  | none, b => b
  | a, none => a
  | some a, some b => some (min a b)

inductive Access where
  | closed
  | exhausted
  | free
  deriving DecidableEq, Repr

/-- A node is closed to a cost that is no lower than before. A new node may be entered while the budget
lasts. -/
def Memo.access (memo : Memo) (cost node : Nat) : Access :=
  match memo.costs.getD node none with
  | some known => if known ≤ cost then .closed else .free
  | none => if memo.budget = 0 then .exhausted else .free

/-- Only a node's first entrance is charged to the budget. -/
def Memo.enter (memo : Memo) (cost node : Nat) : Memo :=
  let charge := if (memo.costs.getD node none).isNone then 1 else 0
  { costs := memo.costs.setIfInBounds node (some cost), budget := memo.budget - charge }

/-- Enters the nodes of a list in turn, until a way is found. -/
def scan (visit : Nat → Memo → Verdict × Memo) (cost : Nat) :
    List Nat → Option Nat → Memo → Verdict × Memo
  | [], sum, memo => (.beyond sum, memo)
  | node :: nodes, sum, memo =>
    match memo.access cost node with
    | .closed => scan visit cost nodes sum memo
    | .exhausted => (.exhausted, memo)
    | .free =>
      match visit node (memo.enter cost node) with
      | (.beyond sum', memo) => scan visit cost nodes (least sum sum') memo
      | result => result

/-- Follows the ways from a node. `left` is what the bound leaves for it, and one more: the node is
reached in `bound + 1 - left` steps, so nothing is left exactly where the steps alone exceed the
bound. -/
def follow (t : Terrain) (bound : Nat) : Nat → Nat → Memo → Verdict × Memo
  | 0, node, memo => (.beyond (some (bound + 1 + t.estimate node)), memo)
  | left + 1, node, memo =>
    let steps := bound - left
    if bound < steps + t.estimate node then (.beyond (some (steps + t.estimate node)), memo)
    else if node = t.goal then (.found [node], memo)
    else
      match scan (follow t bound left) (steps + 1) (t.neighbours node) none memo with
      | (.found path, memo) => (.found (node :: path), memo)
      | result => result

def round (t : Terrain) (size budget start bound : Nat) : Verdict :=
  let costs := (Array.replicate size none).setIfInBounds start (some 0)
  (follow t bound (bound + 1) start { costs, budget }).1

/-- Rounds with growing bounds, at most `rounds` of them. -/
def deepen (run : Nat → Verdict) : Nat → Nat → Option (List Nat)
  | 0, _ => none
  | rounds + 1, bound =>
    match run bound with
    | .found path => some path
    | .beyond (some sum) => deepen run rounds sum
    | .beyond none => none
    | .exhausted => none

/-- A shortest way from the start to the goal in a graph whose nodes are the numbers below `size`. -/
def search (t : Terrain) (size budget rounds start : Nat) : Option (List Nat) :=
  deepen (round t size budget start) rounds (t.estimate start)

end Adventure.Walk
