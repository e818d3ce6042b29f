import Adventure.Proofs.Walk.Cells
/-! The corners of a way. Between two corners a way goes straight on, so that it is as long as the steps
from corner to corner say. -/
namespace Adventure.Walk

/-- The steps from each position to the next if nothing is in the way. -/
def span : List (Int × Int) → Nat
  | c :: d :: rest => chebyshev c d + span (d :: rest)
  | _ => 0

theorem span_cons_cons (c d : Int × Int) (rest : List (Int × Int)) :
    span (c :: d :: rest) = chebyshev c d + span (d :: rest) := rfl

theorem span_cons_self (c : Int × Int) (rest : List (Int × Int)) : span (c :: c :: rest) = span (c :: rest) := by
  rw [span_cons_cons, chebyshev_self, Nat.zero_add]

theorem span_append_self (cells : List (Int × Int)) (c : Int × Int) :
    span (cells ++ [c, c]) = span (cells ++ [c]) := by
  induction cells with
  | nil => exact span_cons_self c []
  | cons d cells ih =>
      cases cells with
      | nil => simp [span]
      | cons e cells =>
          simp only [List.cons_append, span_cons_cons] at ih ⊢
          rw [ih]

/-- The position that a number of steps in one direction lead to. -/
def along (d c : Int × Int) (steps : Nat) : Int × Int :=
  (c.1 + steps * d.1, c.2 + steps * d.2)

theorem along_zero (d c : Int × Int) : along d c 0 = c := by
  simp [along]

theorem along_one (d c : Int × Int) : along d c 1 = (c.1 + d.1, c.2 + d.2) := by
  simp [along]

theorem along_succ (d c : Int × Int) (steps : Nat) :
    along d c (steps + 1) = ((along d c steps).1 + d.1, (along d c steps).2 + d.2) := by
  simp only [along, Int.natCast_add, Int.natCast_one, Int.add_mul, Int.one_mul, Int.add_assoc]

theorem chebyshev_along {d : Int × Int} (hd : d ∈ Grid.directions) (c : Int × Int) (steps : Nat) :
    chebyshev c (along d c steps) = steps := by
  simp only [Grid.directions, List.mem_cons, List.not_mem_nil, or_false] at hd
  unfold chebyshev along
  rcases hd with rfl | rfl | rfl | rfl | rfl | rfl | rfl | rfl <;> dsimp only <;> omega

namespace Grid
variable {g : Grid} {a b goal : Nat} {rest cells : List Nat} {start target : Point}

/-! ### Straight on -/

/-- A step to one of the eight cells around. -/
def Steps (g : Grid) (i j : Nat) : Prop :=
  i ≠ j ∧ chebyshev (g.position i) (g.position j) ≤ 1

theorem isChain_of_leads {i : Nat} {path : List Nat} (h : (g.terrain goal).Leads i path) :
    path.IsChain g.Steps := by
  induction h with
  | goal => exact .singleton _
  | step hnext h ih =>
      obtain ⟨rest, rfl⟩ := h.exists_cons
      obtain ⟨-, hne, hnear⟩ := mem_neighbours_iff.1 (terrain_neighbours_subset hnext)
      exact .cons_cons ⟨Ne.symm hne, hnear⟩ ih

theorem position_of_steps (h : g.Steps a b) : g.position b = along (g.direction a b) (g.position a) 1 := by
  obtain ⟨hx, hy⟩ := chebyshev_le_one_iff.1 h.2
  simp only [position] at hx hy
  have hsign : ∀ n : Int, n.natAbs ≤ 1 → n.sign = n := by
    intro n hn
    have hcases : n = -1 ∨ n = 0 ∨ n = 1 := by omega
    rcases hcases with rfl | rfl | rfl <;> rfl
  rw [along_one, direction, hsign _ (by omega), hsign _ (by omega)]
  exact Prod.ext (by simp [position]) (by simp [position])

theorem direction_mem_directions (h : g.Steps a b) : g.direction a b ∈ directions := by
  have hstep := position_of_steps h
  obtain ⟨hx, hy⟩ := chebyshev_le_one_iff.1 h.2
  rw [along_one] at hstep
  rw [hstep] at hx hy
  refine mem_directions_iff.2 ⟨fun hzero => ?_, by omega, by omega⟩
  rw [hzero, Int.add_zero, Int.add_zero] at hstep
  exact h.1 (position_inj.1 hstep.symm)

/-- From a cell that lies straight behind, the corners of a way take as many steps as the way. -/
theorem span_turns {x : Int × Int} {steps : Nat} (hway : (a :: b :: rest).IsChain g.Steps)
    (hstraight : g.position b = along (g.direction a b) x steps) :
    span (x :: (g.turns (a :: b :: rest)).map g.position) = steps + rest.length := by
  have hdirection := direction_mem_directions (List.isChain_cons_cons.1 hway).1
  have hfar : chebyshev x (g.position b) = steps := by rw [hstraight, chebyshev_along hdirection]
  induction rest generalizing a b x steps with
  | nil => exact hfar
  | cons c rest ih =>
      have hrest := (List.isChain_cons_cons.1 hway).2
      have hnext := position_of_steps (List.isChain_cons_cons.1 hrest).1
      have hdirection' := direction_mem_directions (List.isChain_cons_cons.1 hrest).1
      rw [turns]
      split
      · next hsame =>
        have hstraight' : g.position c = along (g.direction b c) x (steps + 1) := by
          rw [hnext, along_one, along_succ, ← hsame, ← hstraight]
        rw [ih hrest hstraight' hdirection' (by rw [hstraight', chebyshev_along hdirection']), List.length_cons]
        omega
      · rw [List.map_cons, span_cons_cons, hfar, ih hrest hnext hdirection' (by rw [hnext, chebyshev_along hdirection']),
          List.length_cons]
        omega

theorem span_corners (hway : (a :: b :: rest).IsChain g.Steps) :
    span ((g.corners (a :: b :: rest)).map g.position) = rest.length + 1 := by
  rw [Nat.add_comm]
  exact span_turns hway (position_of_steps (List.isChain_cons_cons.1 hway).1)

theorem exists_turns_eq (g : Grid) (a b : Nat) (rest : List Nat) {last : Nat}
    (hlast : (b :: rest).getLast? = some last) : ∃ between, g.turns (a :: b :: rest) = between ++ [last] := by
  induction rest generalizing a b with
  | nil =>
      cases hlast
      exact ⟨[], rfl⟩
  | cons c rest ih =>
      rw [List.getLast?_cons_cons] at hlast
      obtain ⟨between, hbetween⟩ := ih b c hlast
      rw [turns, hbetween]
      split
      · exact ⟨between, rfl⟩
      · exact ⟨b :: between, rfl⟩

/-! ### Waypoints -/

theorem cellOf_center (hside : 0 < g.side) (i : Nat) : g.cellOf (g.center i) = g.position i := by
  have hhalf : g.side.tdiv 2 / g.side = 0 := by
    rw [Int.tdiv_eq_ediv_of_nonneg (Int.le_of_lt hside)]
    exact Int.ediv_eq_zero_of_lt (by omega) (by omega)
  have hcell : ∀ n : Int, (n * g.side + g.side.tdiv 2) / g.side = n := fun n => by
    rw [Int.add_comm, Int.add_mul_ediv_right _ _ (Int.ne_of_gt hside), hhalf, Int.zero_add]
  exact Prod.ext (hcell _) (hcell _)

theorem exists_dropFirst (g : Grid) (p : Point) (i : Nat) (rest : List Nat) :
    ∃ front, (front = [] ∨ front = [i]) ∧ g.dropFirst p (i :: rest) = front ++ rest := by
  rw [dropFirst]
  split
  · exact ⟨[], .inl rfl, rfl⟩
  · exact ⟨[i], .inr rfl, rfl⟩

/-- Between the end points, the waypoints are the centres of the corners but for those in the end points'
own cells. -/
theorem exists_waypoints_eq (hlast : (b :: rest).getLast? = some goal) (start target : Point) :
    ∃ front between back, (front = [] ∨ front = [a]) ∧ (back = [] ∨ back = [goal]) ∧
      g.corners (a :: b :: rest) = a :: (between ++ [goal]) ∧
      g.waypoints start target (a :: b :: rest) =
        start :: ((front ++ between ++ back).map g.center ++ [target]) := by
  obtain ⟨between, hbetween⟩ := g.exists_turns_eq a b rest hlast
  have hcorners : g.corners (a :: b :: rest) = a :: (between ++ [goal]) := by
    rw [corners, hbetween]
    rfl
  obtain ⟨front, hfront, hdrop⟩ := g.exists_dropFirst start a (between ++ [goal])
  obtain ⟨back, hback, hdrop'⟩ := g.exists_dropFirst target goal (front ++ between).reverse
  refine ⟨front, between, back, hfront, hback, hcorners, ?_⟩
  have hreverse : (front ++ (between ++ [goal])).reverse = goal :: (front ++ between).reverse := by simp
  have hkept : (back ++ (front ++ between).reverse).reverse = front ++ between ++ back := by
    rcases hback with rfl | rfl <;> simp
  rw [waypoints, hcorners, hdrop, hreverse, hdrop', hkept]

/-- Corners in the end points' own cells make no difference to the steps. -/
theorem span_waypoints (hside : 0 < g.side) (hway : (a :: b :: rest).IsChain g.Steps)
    (hlast : (b :: rest).getLast? = some goal) (start target : Point) :
    ∃ inner, g.waypoints start target (a :: b :: rest) = start :: (inner ++ [target]) ∧
      span (g.position a :: (inner.map g.cellOf ++ [g.position goal])) = rest.length + 1 := by
  obtain ⟨front, between, back, hfront, hback, hcorners, hwaypoints⟩ :=
    exists_waypoints_eq (g := g) (a := a) hlast start target
  have hspan := span_corners hway
  rw [hcorners, List.map_cons, List.map_append, List.map_singleton] at hspan
  refine ⟨_, hwaypoints, ?_⟩
  rw [List.map_map, show g.cellOf ∘ g.center = g.position from funext (cellOf_center hside), ← hspan,
    List.map_append, List.map_append]
  have hend : span (g.position a :: (between.map g.position ++ back.map g.position ++ [g.position goal])) =
      span (g.position a :: (between.map g.position ++ [g.position goal])) := by
    rcases hback with rfl | rfl
    · simp
    · simpa using span_append_self (g.position a :: between.map g.position) (g.position goal)
  rcases hfront with rfl | rfl
  · exact hend
  · exact (span_cons_self _ _).trans hend

end Grid
end Adventure.Walk
