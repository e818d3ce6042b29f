import Adventure.Proofs.Walk.Path
/-! The waypoints keep the way. The segments from waypoint to waypoint are straight, no two of them in a row
have one heading, and their cells are the cells of the way. -/
namespace Adventure.Walk

/-! ### Segments -/

/-- The direction from a position to another. -/
def heading (c d : Int × Int) : Int × Int :=
  ((d.1 - c.1).sign, (d.2 - c.2).sign)

/-- Two positions in one row, in one column or on one diagonal. -/
def InLine (c d : Int × Int) : Prop :=
  c ≠ d ∧ (c.1 = d.1 ∨ c.2 = d.2 ∨ (c.1 - d.1).natAbs = (c.2 - d.2).natAbs)

/-- The positions of a segment, but for its last one. -/
def segment (c d : Int × Int) : List (Int × Int) :=
  (List.range (chebyshev c d)).map (along (heading c d) c)

/-- All positions of the segments between the stops. -/
def expand : List (Int × Int) → List (Int × Int)
  | c :: d :: rest => segment c d ++ expand (d :: rest)
  | stops => stops

def headings : List (Int × Int) → List (Int × Int)
  | c :: d :: rest => heading c d :: headings (d :: rest)
  | _ => []

theorem expand_cons_cons (c d : Int × Int) (rest : List (Int × Int)) :
    expand (c :: d :: rest) = segment c d ++ expand (d :: rest) := rfl

theorem headings_cons_cons (c d : Int × Int) (rest : List (Int × Int)) :
    headings (c :: d :: rest) = heading c d :: headings (d :: rest) := rfl

variable {c d x : Int × Int} {steps : Nat} {m : WalkMap} {stops cells : List (Int × Int)}

theorem along_heading (h : InLine c d) : along (heading c d) c (chebyshev c d) = d := by
  have hreach : ∀ (a b : Int) (n : Nat), a = b ∨ n = (b - a).natAbs → a + n * (b - a).sign = b := by
    rintro a b n (rfl | rfl)
    · simp
    · rw [Int.mul_comm, Int.sign_mul_natAbs, add_sub_cancel]
  have hfar : chebyshev c d = max (d.1 - c.1).natAbs (d.2 - c.2).natAbs := by
    unfold chebyshev
    omega
  obtain ⟨-, hline⟩ := h
  exact Prod.ext (hreach _ _ _ (by omega)) (hreach _ _ _ (by omega))

theorem heading_along (hd : d ∈ Grid.directions) (c : Int × Int) (hsteps : 0 < steps) :
    heading c (along d c steps) = d := by
  have hsign : ∀ a n : Int, n.natAbs ≤ 1 → (a + steps * n - a).sign = n := by
    intro a n hn
    rw [add_sub_cancel_left, Int.sign_mul, Int.sign_natCast_of_ne_zero (Nat.ne_of_gt hsteps), Int.one_mul]
    have hcases : n = -1 ∨ n = 0 ∨ n = 1 := by omega
    rcases hcases with rfl | rfl | rfl <;> rfl
  obtain ⟨-, hx, hy⟩ := Grid.mem_directions_iff.1 hd
  exact Prod.ext (hsign _ _ hx) (hsign _ _ hy)

theorem inLine_along (hd : d ∈ Grid.directions) (c : Int × Int) (hsteps : 0 < steps) :
    InLine c (along d c steps) := by
  simp only [Grid.directions, List.mem_cons, List.not_mem_nil, or_false] at hd
  unfold InLine along
  rw [Ne, Prod.ext_iff]
  rcases hd with rfl | rfl | rfl | rfl | rfl | rfl | rfl | rfl <;> dsimp only <;> omega

theorem segment_along (hd : d ∈ Grid.directions) (c : Int × Int) (hsteps : 0 < steps) :
    segment c (along d c steps) = (List.range steps).map (along d c) := by
  rw [segment, chebyshev_along hd, heading_along hd c hsteps]

/-! ### From stop to stop -/

/-- From a position on, the stops lead through the cells, at first in the direction `d`, and then they turn
at every stop. -/
structure Leg (x d : Int × Int) (stops cells : List (Int × Int)) : Prop where
  inLine : (x :: stops).IsChain InLine
  turns : ∃ ds, headings (x :: stops) = d :: ds ∧ (d :: ds).IsChain (· ≠ ·)
  expand : expand (x :: stops) = cells

theorem Leg.single (hd : d ∈ Grid.directions) (hsteps : 0 < steps) :
    Leg x d [along d x steps] ((List.range steps).map (along d x) ++ [along d x steps]) where
  inLine := .cons_cons (inLine_along hd x hsteps) (.singleton _)
  turns := ⟨[], by rw [headings_cons_cons, heading_along hd x hsteps]; rfl, .singleton _⟩
  expand := by
    rw [expand_cons_cons, segment_along hd x hsteps]
    rfl

theorem Leg.cons {d' : Int × Int} (hd : d ∈ Grid.directions) (hsteps : 0 < steps) (hturn : d ≠ d')
    (h : Leg (along d x steps) d' stops cells) :
    Leg x d (along d x steps :: stops) ((List.range steps).map (along d x) ++ cells) where
  inLine := .cons_cons (inLine_along hd x hsteps) h.inLine
  turns := by
    obtain ⟨ds, hds, hchain⟩ := h.turns
    exact ⟨d' :: ds, by rw [headings_cons_cons, heading_along hd x hsteps, hds], .cons_cons hturn hchain⟩
  expand := by rw [expand_cons_cons, segment_along hd x hsteps, h.expand]

theorem mem_expand_cons (h : (c :: stops).IsChain InLine) : c ∈ expand (c :: stops) := by
  cases h with
  | singleton => exact List.mem_cons_self
  | cons_cons hline _ =>
      rw [expand_cons_cons]
      refine List.mem_append_left _ (List.mem_map.2 ⟨0, ?_, along_zero _ _⟩)
      exact List.mem_range.2 (chebyshev_pos hline.1)

/-- Every position on the way between two stops is one of the cells. -/
theorem isOpen_of_expand (hline : stops.IsChain InLine) (hopen : ∀ e ∈ expand stops, m.IsOpen e) :
    stops.IsChain fun c d => ∀ k ≤ chebyshev c d, m.IsOpen (along (heading c d) c k) := by
  induction hline with
  | nil => exact .nil
  | singleton => exact .singleton _
  | @cons_cons c d rest hcd hline ih =>
      rw [expand_cons_cons, List.forall_mem_append] at hopen
      obtain ⟨hsegment, hrest⟩ := hopen
      refine .cons_cons (fun k hk => ?_) (ih hrest)
      rcases Nat.lt_or_eq_of_le hk with hlt | rfl
      · exact hsegment _ (List.mem_map_of_mem (List.mem_range.2 hlt))
      · rw [along_heading hcd]
        exact hrest d (mem_expand_cons hline)

/-! ### Repetitions -/

/-- The positions without a repetition of the first one. -/
def dropRepeat : List (Int × Int) → List (Int × Int)
  | c :: d :: rest => if c = d then d :: rest else c :: d :: rest
  | stops => stops

/-- The positions without a repetition at either end. -/
def dropRepeats (stops : List (Int × Int)) : List (Int × Int) :=
  (dropRepeat (dropRepeat stops).reverse).reverse

theorem dropRepeat_cons_append {front rest : List (Int × Int)} (hfront : front = [] ∨ front = [c])
    (hne : ∀ d ∈ rest.head?, c ≠ d) : dropRepeat (c :: (front ++ rest)) = c :: rest := by
  rcases hfront with rfl | rfl
  · cases rest with
    | nil => rfl
    | cons d rest => exact if_neg (hne d rfl)
  · exact if_pos rfl

theorem dropRepeats_eq {front between back : List (Int × Int)} (h : (c :: (between ++ [d])).IsChain (· ≠ ·))
    (hfront : front = [] ∨ front = [c]) (hback : back = [] ∨ back = [d]) :
    dropRepeats (c :: (front ++ between ++ back ++ [d])) = c :: (between ++ [d]) := by
  have hfirst : dropRepeat (c :: (front ++ between ++ back ++ [d])) = c :: (between ++ back ++ [d]) := by
    have hhead : (between ++ back ++ [d]).head? = (between ++ [d]).head? := by
      rcases hback with rfl | rfl
      · rw [List.append_nil]
      · cases between <;> rfl
    rw [List.append_assoc, List.append_assoc, ← List.append_assoc between]
    exact dropRepeat_cons_append hfront (hhead ▸ (List.isChain_cons.1 h).1)
  have hlast : dropRepeat (d :: (back ++ (c :: between).reverse)) = d :: (c :: between).reverse := by
    have hreverse := List.isChain_reverse.2 h
    rw [← List.cons_append, List.reverse_append] at hreverse
    exact dropRepeat_cons_append hback fun e he => Ne.symm ((List.isChain_cons.1 hreverse).1 e he)
  have hswap : (c :: (between ++ back ++ [d])).reverse = d :: (back ++ (c :: between).reverse) := by
    rcases hback with rfl | rfl <;> simp
  rw [dropRepeats, hfirst, hswap, hlast]
  simp

/-- The stops lead straight on through the cells, all of which are open, and turn at every stop. -/
structure Straight (m : WalkMap) (stops cells : List (Int × Int)) : Prop where
  inLine : stops.IsChain InLine
  isOpen : stops.IsChain fun c d => ∀ k ≤ chebyshev c d, m.IsOpen (along (heading c d) c k)
  turns : (headings stops).IsChain (· ≠ ·)
  expand : expand stops = cells

namespace Grid
variable {g : Grid} {a b goal : Nat} {rest : List Nat} {start target : Point}

/-- From a position that lies straight behind `b`, the corners of a way lead through its cells. -/
theorem leg_turns {x : Int × Int} {steps : Nat} (hway : (a :: b :: rest).IsChain g.Steps) (hsteps : 0 < steps)
    (hstraight : g.position b = along (g.direction a b) x steps) :
    Leg x (g.direction a b) ((g.turns (a :: b :: rest)).map g.position)
      ((List.range steps).map (along (g.direction a b) x) ++ (b :: rest).map g.position) := by
  have hdirection := direction_mem_directions (List.isChain_cons_cons.1 hway).1
  induction rest generalizing a b x steps with
  | nil =>
      rw [turns, List.map_singleton, hstraight]
      exact .single hdirection hsteps
  | cons c rest ih =>
      have hrest := (List.isChain_cons_cons.1 hway).2
      have hnext := position_of_steps (List.isChain_cons_cons.1 hrest).1
      have hdirection' := direction_mem_directions (List.isChain_cons_cons.1 hrest).1
      rw [turns]
      split
      · -- The segment from `x` goes on through `b`.
        next hsame =>
        have hstraight' : g.position c = along (g.direction b c) x (steps + 1) := by
          rw [hnext, along_one, along_succ, ← hsame, ← hstraight]
        have hleg := ih hrest (Nat.succ_pos steps) hstraight' hdirection'
        rw [List.range_succ, List.map_append, List.map_singleton, ← hsame, ← hstraight, List.append_assoc] at hleg
        exact hleg
      · -- The segment ends at `b`, and the next one starts there.
        next hturn =>
        have hleg := ih hrest Nat.one_pos hnext hdirection'
        rw [List.range_one, List.map_singleton, along_zero, List.singleton_append, ← List.map_cons, hstraight] at hleg
        rw [List.map_cons, hstraight]
        exact hleg.cons hdirection hsteps hturn

theorem corners_cons (g : Grid) (a : Nat) (cells : List Nat) :
    g.corners (a :: cells) = a :: g.turns (a :: cells) := rfl

theorem Shows.straight_corners (h : g.Shows m) (hopen : ∀ i ∈ a :: b :: rest, g.isOpen i = true)
    (hway : (a :: b :: rest).IsChain g.Steps) :
    Straight m ((g.corners (a :: b :: rest)).map g.position) ((a :: b :: rest).map g.position) := by
  have hleg : Leg (g.position a) (g.direction a b) ((g.turns (a :: b :: rest)).map g.position)
      ((a :: b :: rest).map g.position) := by
    simpa [along_zero] using leg_turns hway Nat.one_pos (position_of_steps (List.isChain_cons_cons.1 hway).1)
  obtain ⟨ds, hds, hturns⟩ := hleg.turns
  rw [corners_cons, List.map_cons]
  refine ⟨hleg.inLine, isOpen_of_expand hleg.inLine ?_, ?_, hleg.expand⟩
  · rw [hleg.expand, List.forall_mem_map]
    exact fun i hi => h.isOpen_position.2 (hopen i hi)
  · exact hds ▸ hturns

theorem turns_subset (g : Grid) (cells : List Nat) : g.turns cells ⊆ cells := by
  fun_induction g.turns cells with
  | case1 a b c rest _ ih => exact List.subset_cons_of_subset a ih
  | case2 a b c rest _ ih => exact List.cons_subset.2 ⟨by simp, List.subset_cons_of_subset a ih⟩
  | case3 a b => simp
  | case4 => simp

/-- Between the end points, the waypoints are centres of cells of the way. Without a repetition at the ends,
their cells are the corners. -/
theorem exists_inner_eq (hside : 0 < g.side) (hturns : ((g.corners (a :: b :: rest)).map g.position).IsChain (· ≠ ·))
    (hlast : (b :: rest).getLast? = some goal) (start target : Point) :
    ∃ inner, g.waypoints start target (a :: b :: rest) = start :: (inner ++ [target]) ∧
      (∀ p ∈ inner, ∃ i ∈ a :: b :: rest, g.center i = p) ∧
      dropRepeats (g.position a :: (inner.map g.cellOf ++ [g.position goal])) =
        (g.corners (a :: b :: rest)).map g.position := by
  obtain ⟨front, between, back, hfront, hback, hcorners, hwaypoints⟩ :=
    exists_waypoints_eq (g := g) (a := a) hlast start target
  have hsubset : a :: (between ++ [goal]) ⊆ a :: b :: rest := by
    rw [← hcorners, corners_cons]
    exact List.cons_subset.2 ⟨List.mem_cons_self, g.turns_subset _⟩
  have hkept : front ++ between ++ back ⊆ a :: (between ++ [goal]) := by
    rcases hfront with rfl | rfl <;> rcases hback with rfl | rfl <;> simp
  refine ⟨_, hwaypoints, List.forall_mem_map.2 fun i hi => ⟨i, hsubset (hkept hi), rfl⟩, ?_⟩
  have hcell : g.cellOf ∘ g.center = g.position := funext (cellOf_center hside)
  simp only [hcorners, List.map_cons, List.map_append, List.map_nil, List.map_map, hcell] at hturns ⊢
  exact dropRepeats_eq hturns (by rcases hfront with rfl | rfl <;> simp) (by rcases hback with rfl | rfl <;> simp)

theorem isOpen_of_leads {path : List Nat} (h : (g.terrain goal).Leads a path) (ha : g.isOpen a = true) :
    ∀ i ∈ path, g.isOpen i = true := by
  induction h with
  | goal => exact List.forall_mem_singleton.2 ha
  | step hnext _ ih =>
      exact List.forall_mem_cons.2 ⟨ha, ih (isOpen_of_mem_neighbours (terrain_neighbours_subset hnext))⟩

theorem Shows.exists_straight (h : g.Shows m) (hexpansion : 1 ≤ g.expansion) (hside : 0 < g.side) {i j : Nat}
    (hi : g.isOpen i = true) (hij : i ≠ j) {cells : List Nat} (hcells : g.cellPath? i j = some cells)
    (start target : Point) :
    ∃ inner, g.waypoints start target cells = start :: (inner ++ [target]) ∧
      (∀ p ∈ inner, ∃ k, m.IsOpen (g.position k) ∧ g.center k = p) ∧
      Straight m (dropRepeats (g.position i :: (inner.map g.cellOf ++ [g.position j]))) (cells.map g.position) := by
  have hleads := (shortest_of_cellPath? hexpansion hi hcells).1
  have hopen := isOpen_of_leads hleads hi
  obtain ⟨k, rest, rfl⟩ := hleads.exists_cons_cons hij
  have hlast : (k :: rest).getLast? = some j := hleads.getLast?
  have hstraight := h.straight_corners hopen (isChain_of_leads hleads)
  have hne := hstraight.inLine.imp fun _ _ hline => hline.1
  obtain ⟨inner, hinner, hcenters, hstops⟩ := exists_inner_eq hside hne hlast start target
  refine ⟨inner, hinner, fun p hp => ?_, hstops ▸ hstraight⟩
  obtain ⟨k, hk, hcenter⟩ := hcenters p hp
  exact ⟨k, h.isOpen_position.2 (hopen k hk), hcenter⟩

/-- The points go from the start to the target through centres of walkable cells. From the one's cell to the
other's they lead straight on through the cells that the search has found, and turn at every point between. -/
def KeepsWay (g : Grid) (m : WalkMap) (start target : Point) (points : List Point) : Prop :=
  ∃ inner i j, points = start :: (inner ++ [target]) ∧
    (∀ p ∈ inner, ∃ k, m.IsOpen (g.position k) ∧ g.center k = p) ∧
    m.Snaps (g.cellOf start) (g.position i) ∧ m.Snaps (g.cellOf target) (g.position j) ∧
    (i = j → inner = []) ∧
    (i ≠ j → ∃ cells, g.cellPath? i j = some cells ∧
      Straight m (dropRepeats (g.position i :: (inner.map g.cellOf ++ [g.position j]))) (cells.map g.position))

theorem side_pos_of_isOpen {screenWidth screenHeight cellSize : UInt32} {expansion i j : Nat}
    (hscreen : (ofScreen screenWidth screenHeight cellSize expansion).SameScreen g)
    (hi : g.isOpen i = true) (hj : g.isOpen j = true) (hij : i ≠ j) : 0 < g.side := by
  have harea := one_lt_area hi hj hij
  rw [area, hscreen.width, hscreen.height] at harea
  rw [side, hscreen.cellSize]
  exact side_pos harea

/-- Whatever a grid was used for before it took over a map, the waypoints keep the way. -/
theorem keepsWay_uses {screenWidth screenHeight cellSize : UInt32} {expansion : Nat}
    (hwidth : m.width.toNat = (ofScreen screenWidth screenHeight cellSize expansion).width)
    (hheight : m.height.toNat = (ofScreen screenWidth screenHeight cellSize expansion).height)
    (before : List Use) {after : List Use} (hafter : ∀ u ∈ after, u.KeepsCells) {points : List Point} :
    let g := (ofScreen screenWidth screenHeight cellSize expansion).uses (before ++ .map m :: after)
    1 ≤ g.expansion → g.findPath start target = some points → g.KeepsWay m start target points := by
  intro g hexpansion hpath
  have hshows : g.Shows m := shows_uses hwidth hheight before hafter
  obtain ⟨i, j, hnearest, hnearest', -⟩ := isSome_findPath_iff.1 (Option.isSome_of_eq_some hpath)
  have hi := isOpen_of_nearest? hnearest
  have hj := isOpen_of_nearest? hnearest'
  have hsnaps : m.Snaps (g.cellOf start) (g.position i) := hshows.snaps_iff.2 ⟨i, hnearest, rfl⟩
  have hsnaps' : m.Snaps (g.cellOf target) (g.position j) := hshows.snaps_iff.2 ⟨j, hnearest', rfl⟩
  rw [findPath_eq hnearest hnearest'] at hpath
  by_cases hij : i = j
  · rw [if_pos hij] at hpath
    cases hpath
    exact ⟨[], i, j, rfl, by simp, hsnaps, hsnaps', fun _ => rfl, fun hne => absurd hij hne⟩
  · rw [if_neg hij, Option.map_eq_some_iff] at hpath
    obtain ⟨cells, hcells, rfl⟩ := hpath
    have hside : 0 < g.side := side_pos_of_isOpen (sameScreen_uses _ _) hi hj hij
    obtain ⟨inner, hinner, hcenters, hstraight⟩ := hshows.exists_straight hexpansion hside hi hij hcells start target
    exact ⟨inner, i, j, hinner, hcenters, hsnaps, hsnaps', fun heq => absurd heq hij,
      fun _ => ⟨cells, hcells, hstraight⟩⟩

/-- A way from beside the screen, with a turn. -/
theorem keepsWay_uses_stairs :
    let g := (ofScreen 30 20 10 3).uses ([.clear] ++ .map stairs :: [.factor 1])
    1 ≤ g.expansion ∧ g.findPath ⟨-20, 5⟩ ⟨25, 15⟩ = some [⟨-20, 5⟩, ⟨5, 5⟩, ⟨15, 5⟩, ⟨25, 15⟩] ∧
      g.KeepsWay stairs ⟨-20, 5⟩ ⟨25, 15⟩ [⟨-20, 5⟩, ⟨5, 5⟩, ⟨15, 5⟩, ⟨25, 15⟩] := by
  intro g
  have hexpansion : 1 ≤ g.expansion := by decide
  have hpath : g.findPath ⟨-20, 5⟩ ⟨25, 15⟩ = some [⟨-20, 5⟩, ⟨5, 5⟩, ⟨15, 5⟩, ⟨25, 15⟩] := by decide
  exact ⟨hexpansion, hpath,
    keepsWay_uses (by decide) (by decide) [.clear] (by simp [Use.KeepsCells]) hexpansion hpath⟩

end Grid
end Adventure.Walk
