import Adventure.Proofs.Walk.Corners
/-! Ways across the grid. A way is found exactly if there is one on the walk map, it is a shortest one,
and neither the factor nor what the grid was used for before makes a difference. -/
namespace Adventure.Walk.Grid

variable {g g' g₀ : Grid} {m : WalkMap} {i goal : Nat} {path : List Nat} {a b c : Int × Int}

/-! ### Ways and walks -/

theorem mem_terrain_neighbours (hi : g.isOpen i = true) {j : Nat} :
    j ∈ (g.terrain goal).neighbours i ↔ j ∈ g.neighbours i := by
  rw [terrain_neighbours (lt_area_of_isOpen hi)]

theorem isOpen_of_mem_neighbours {j : Nat} (h : j ∈ g.neighbours i) : g.isOpen j = true :=
  (mem_neighbours_iff.1 h).1

theorem Shows.exists_walk (h : g.Shows m) (hleads : (g.terrain goal).Leads i path) (hi : g.isOpen i = true) :
    ∃ w : m.graph.Walk (g.position i) (g.position goal), w.support = path.map g.position := by
  induction hleads with
  | goal => exact ⟨.nil, rfl⟩
  | step hnext _ ih =>
      rw [mem_terrain_neighbours hi] at hnext
      obtain ⟨w, hsupport⟩ := ih (isOpen_of_mem_neighbours hnext)
      refine ⟨.cons ((h.adj_iff hi).2 hnext) w, ?_⟩
      rw [SimpleGraph.Walk.support_cons, hsupport, List.map_cons]

theorem Shows.exists_leads (h : g.Shows m) (w : m.graph.Walk a b) (hi : g.isOpen i = true)
    (ha : g.position i = a) (hb : g.position goal = b) :
    ∃ path, (g.terrain goal).Leads i path ∧ path.map g.position = w.support := by
  induction w generalizing i with
  | nil =>
      obtain rfl := position_inj.1 (ha.trans hb.symm)
      exact ⟨[i], .goal, by rw [List.map_singleton, ha]; rfl⟩
  | @cons a a' b hadj w ih =>
      obtain ⟨j, hj, rfl⟩ := h.isOpen_iff.1 (WalkMap.isOpen_of_adj hadj)
      obtain ⟨path, hleads, hpath⟩ := ih hj rfl hb
      subst ha
      refine ⟨i :: path, .step ((mem_terrain_neighbours hi).2 ((h.adj_iff hi).1 hadj)) hleads, ?_⟩
      rw [List.map_cons, hpath, SimpleGraph.Walk.support_cons]

theorem Shows.reachable_iff (h : g.Shows m) (hi : g.isOpen i = true) :
    m.graph.Reachable (g.position i) (g.position goal) ↔ ∃ path, (g.terrain goal).Leads i path := by
  constructor
  · rintro ⟨w⟩
    obtain ⟨path, hleads, -⟩ := h.exists_leads w hi rfl rfl
    exact ⟨path, hleads⟩
  · rintro ⟨path, hleads⟩
    obtain ⟨w, -⟩ := h.exists_walk hleads hi
    exact w.reachable

/-- A shortest way of the terrain is a walk as long as the distance. -/
theorem Shows.exists_walk_of_shortest (h : g.Shows m) (hi : g.isOpen i = true)
    (hshortest : (g.terrain goal).Shortest i path) :
    ∃ w : m.graph.Walk (g.position i) (g.position goal), w.support = path.map g.position ∧
      w.length = m.graph.dist (g.position i) (g.position goal) := by
  obtain ⟨hleads, hleast⟩ := hshortest
  obtain ⟨w, hsupport⟩ := h.exists_walk hleads hi
  obtain ⟨w', hw'⟩ := w.reachable.exists_walk_length_eq_dist
  obtain ⟨path', hleads', hpath'⟩ := h.exists_leads w' hi rfl rfl
  have hlength := congrArg List.length hsupport
  have hlength' := congrArg List.length hpath'
  rw [SimpleGraph.Walk.length_support, List.length_map] at hlength hlength'
  have hle := hleast path' hleads'
  exact ⟨w, hsupport, Nat.le_antisymm (by omega) (SimpleGraph.dist_le w)⟩

/-! ### The cells of a way -/

theorem area_le_budget (hexpansion : 1 ≤ g.expansion) : g.area ≤ g.expansion * g.area :=
  Nat.le_mul_of_pos_left _ hexpansion

theorem Shows.isSome_cellPath?_iff (h : g.Shows m) (hexpansion : 1 ≤ g.expansion) (hi : g.isOpen i = true) :
    (g.cellPath? i goal).isSome = true ↔ m.graph.Reachable (g.position i) (g.position goal) := by
  rw [h.reachable_iff hi]
  refine Terrain.isSome_search_iff (g.terrain_sound goal) (lt_area_of_isOpen hi)
    (area_le_budget hexpansion) ?_
  omega

theorem shortest_of_cellPath? (hexpansion : 1 ≤ g.expansion) (hi : g.isOpen i = true)
    (hpath : g.cellPath? i goal = some path) : (g.terrain goal).Shortest i path :=
  Terrain.shortest_of_search (g.terrain_sound goal) (lt_area_of_isOpen hi) (area_le_budget hexpansion) hpath

theorem cellPath?_expansion (hexpansion : 1 ≤ g.expansion) {factor : Nat} (hfactor : 1 ≤ factor)
    (i goal : Nat) : { g with expansion := factor }.cellPath? i goal = g.cellPath? i goal :=
  Terrain.search_budget (g.terrain_sound goal).closed (Nat.le_mul_of_pos_left _ hfactor)
    (area_le_budget hexpansion)

/-! ### Ways between points -/

theorem findPath_eq {start target : Point} {i j : Nat}
    (hi : g.nearest? (g.cellOf start).1 (g.cellOf start).2 = some i)
    (hj : g.nearest? (g.cellOf target).1 (g.cellOf target).2 = some j) :
    g.findPath start target =
      if i = j then some [start, target] else (g.cellPath? i j).map (g.waypoints start target) := by
  rw [findPath, hi, hj]
  simp only [Option.bind_eq_bind, Option.bind_some]
  split
  · rfl
  · cases g.cellPath? i j <;> rfl

theorem turns_expansion (g : Grid) (factor : Nat) (cells : List Nat) :
    { g with expansion := factor }.turns cells = g.turns cells := by
  fun_induction g.turns cells with
  | case1 a b c rest hsame ih => exact (if_pos hsame).trans ih
  | case2 a b c rest hturn ih => exact (if_neg hturn).trans (congrArg (b :: ·) ih)
  | case3 a b => rfl
  | case4 cells hlong hpair => rw [turns] <;> assumption

theorem waypoints_expansion (g : Grid) (factor : Nat) (start target : Point) (cells : List Nat) :
    { g with expansion := factor }.waypoints start target cells = g.waypoints start target cells := by
  have hdrop : ∀ p indices, { g with expansion := factor }.dropFirst p indices = g.dropFirst p indices := by
    intro p indices
    cases indices <;> rfl
  simp only [waypoints, corners, turns_expansion, hdrop]
  rfl

theorem findPath_expansion (hexpansion : 1 ≤ g.expansion) {factor : Nat} (hfactor : 1 ≤ factor)
    (start target : Point) :
    { g with expansion := factor }.findPath start target = g.findPath start target := by
  unfold findPath
  simp only [cellPath?_expansion hexpansion hfactor, waypoints_expansion]
  rfl

theorem isSome_findPath_iff {start target : Point} : (g.findPath start target).isSome = true ↔
    ∃ i j, g.nearest? (g.cellOf start).1 (g.cellOf start).2 = some i ∧
      g.nearest? (g.cellOf target).1 (g.cellOf target).2 = some j ∧
      (i = j ∨ (g.cellPath? i j).isSome = true) := by
  cases hi : g.nearest? (g.cellOf start).1 (g.cellOf start).2 with
  | none => simp [findPath, hi]
  | some i =>
      cases hj : g.nearest? (g.cellOf target).1 (g.cellOf target).2 with
      | none => simp [findPath, hi, hj]
      | some j =>
          rw [findPath_eq hi hj]
          by_cases heq : i = j <;> simp [heq]

/-- A way is found exactly if the walkable cells that the points stand for are joined by steps. -/
theorem Shows.isSome_findPath_iff (h : g.Shows m) (hexpansion : 1 ≤ g.expansion) (start target : Point) :
    (g.findPath start target).isSome = true ↔ ∃ a b, m.Snaps (g.cellOf start) a ∧
      m.Snaps (g.cellOf target) b ∧ m.graph.Reachable a b := by
  rw [Grid.isSome_findPath_iff]
  constructor
  · rintro ⟨i, j, hnearest, hnearest', hway⟩
    have hi := isOpen_of_nearest? hnearest
    refine ⟨_, _, h.snaps_iff.2 ⟨i, hnearest, rfl⟩, h.snaps_iff.2 ⟨j, hnearest', rfl⟩, ?_⟩
    rcases hway with rfl | hway
    · exact .refl _
    · exact (h.isSome_cellPath?_iff hexpansion hi).1 hway
  · rintro ⟨a, b, ha, hb, hreachable⟩
    obtain ⟨i, hnearest, rfl⟩ := h.snaps_iff.1 ha
    obtain ⟨j, hnearest', rfl⟩ := h.snaps_iff.1 hb
    have hi := isOpen_of_nearest? hnearest
    exact ⟨i, j, hnearest, hnearest', .inr ((h.isSome_cellPath?_iff hexpansion hi).2 hreachable)⟩

/-- The points are those of a shortest way between two walkable cells. -/
structure ShortestPath (g : Grid) (m : WalkMap) (start target : Point) (a b : Int × Int)
    (points : List Point) : Prop where
  /-- The cells that the search has found are a walk as long as the distance. -/
  cells : ∃ i j cells, g.nearest? (g.cellOf start).1 (g.cellOf start).2 = some i ∧
    g.nearest? (g.cellOf target).1 (g.cellOf target).2 = some j ∧ g.cellPath? i j = some cells ∧
    points = g.waypoints start target cells ∧
    ∃ w : m.graph.Walk a b, w.support = cells.map g.position ∧ w.length = m.graph.dist a b
  /-- From waypoint to waypoint it takes as many steps. -/
  waypoints : ∃ inner, points = start :: (inner ++ [target]) ∧
    span (a :: (inner.map g.cellOf ++ [b])) = m.graph.dist a b

theorem Shows.shortestPath (h : g.Shows m) (hexpansion : 1 ≤ g.expansion) (hside : 0 < g.side)
    {start target : Point} {points : List Point} (ha : m.Snaps (g.cellOf start) a)
    (hb : m.Snaps (g.cellOf target) b) (hne : a ≠ b) (hpath : g.findPath start target = some points) :
    g.ShortestPath m start target a b points := by
  obtain ⟨i, hnearest, rfl⟩ := h.snaps_iff.1 ha
  obtain ⟨j, hnearest', rfl⟩ := h.snaps_iff.1 hb
  have hi := isOpen_of_nearest? hnearest
  have hij : i ≠ j := mt (congrArg g.position) hne
  rw [findPath_eq hnearest hnearest', if_neg hij, Option.map_eq_some_iff] at hpath
  obtain ⟨cells, hcells, rfl⟩ := hpath
  have hshortest := shortest_of_cellPath? hexpansion hi hcells
  obtain ⟨w, hsupport, hlength⟩ := h.exists_walk_of_shortest hi hshortest
  refine ⟨⟨i, j, cells, hnearest, hnearest', hcells, rfl, w, hsupport, hlength⟩, ?_⟩
  obtain ⟨k, rest, rfl⟩ := hshortest.1.exists_cons_cons hij
  have hlast : (k :: rest).getLast? = some j := hshortest.1.getLast?
  obtain ⟨inner, hinner, hspan⟩ := span_waypoints hside (isChain_of_leads hshortest.1) hlast start target
  refine ⟨inner, hinner, hspan.trans ?_⟩
  have hcount := congrArg List.length hsupport
  rw [SimpleGraph.Walk.length_support, hlength, List.length_map, List.length_cons, List.length_cons] at hcount
  omega

/-! ### Uses of a grid -/

/-- What a grid may be used for. -/
inductive Use where
  | map (m : WalkMap)
  | clear
  | factor (expansion : Nat)
  | find (start target : Point)

/-- A map of another size is refused. A search leaves nothing behind. -/
def use (g : Grid) : Use → Grid
  | .map m =>
    match g.setMap m with
    | .ok g => g
    | .error _ => g
  | .clear => g.clear
  | .factor expansion => { g with expansion }
  | .find _ _ => g

def uses (g : Grid) (us : List Use) : Grid :=
  us.foldl use g

/-- The cells stay as they are. -/
def Use.KeepsCells : Use → Prop
  | .map _ => False
  | .clear => False
  | .factor _ => True
  | .find _ _ => True

/-- Grids of the same cells on the screen. -/
structure SameScreen (g g' : Grid) : Prop where
  width : g'.width = g.width
  height : g'.height = g.height
  cellSize : g'.cellSize = g.cellSize

theorem SameScreen.trans {g'' : Grid} (h : g.SameScreen g') (h' : g'.SameScreen g'') : g.SameScreen g'' :=
  ⟨h'.width.trans h.width, h'.height.trans h.height, h'.cellSize.trans h.cellSize⟩

theorem sameScreen_use (g : Grid) (u : Use) : g.SameScreen (g.use u) := by
  cases u with
  | map m =>
      by_cases hsize : m.width.toNat = g.width ∧ m.height.toNat = g.height
      · simp only [use, setMap, dif_pos hsize]
        exact ⟨rfl, rfl, rfl⟩
      · simp only [use, setMap, dif_neg hsize]
        exact ⟨rfl, rfl, rfl⟩
  | clear => exact ⟨rfl, rfl, rfl⟩
  | factor expansion => exact ⟨rfl, rfl, rfl⟩
  | find start target => exact ⟨rfl, rfl, rfl⟩

theorem sameScreen_uses (g : Grid) (us : List Use) : g.SameScreen (g.uses us) := by
  induction us generalizing g with
  | nil => exact ⟨rfl, rfl, rfl⟩
  | cons u us ih => exact (g.sameScreen_use u).trans (ih (g.use u))

theorem shows_use_map (hwidth : m.width.toNat = g.width) (hheight : m.height.toNat = g.height) :
    (g.use (.map m)).Shows m := by
  simp only [use, setMap, hwidth, hheight, and_self, dif_pos]
  exact ⟨hwidth, hheight, rfl⟩

theorem Shows.uses (h : g.Shows m) {us : List Use} (hkeeps : ∀ u ∈ us, u.KeepsCells) : (g.uses us).Shows m := by
  induction us generalizing g with
  | nil => exact h
  | cons u us ih =>
      refine ih ?_ fun u' hu' => hkeeps u' (List.mem_cons_of_mem u hu')
      have hu := hkeeps u List.mem_cons_self
      cases u with
      | map m => cases hu
      | clear => cases hu
      | factor expansion => exact ⟨h.width, h.height, h.values⟩
      | find start target => exact h

/-- The latest map is the one that counts. -/
theorem shows_uses (hwidth : m.width.toNat = g₀.width) (hheight : m.height.toNat = g₀.height)
    (before : List Use) {after : List Use} (hafter : ∀ u ∈ after, u.KeepsCells) :
    (g₀.uses (before ++ .map m :: after)).Shows m := by
  have hscreen := g₀.sameScreen_uses before
  rw [uses, List.foldl_append, List.foldl_cons]
  exact (shows_use_map (hwidth.trans hscreen.width.symm) (hheight.trans hscreen.height.symm)).uses hafter

theorem Shows.eq_of_sameScreen (h : g.Shows m) (h' : g'.Shows m) (hscreen : g.SameScreen g')
    (hexpansion : g'.expansion = g.expansion) : g' = g := by
  obtain ⟨-, -, hvalues⟩ := h
  obtain ⟨-, -, hvalues'⟩ := h'
  obtain ⟨hwidth, hheight, hcellSize⟩ := hscreen
  cases g
  cases g'
  dsimp only at *
  subst hwidth hheight hcellSize hexpansion hvalues hvalues'
  rfl

/-- Whatever a grid was used for before it took over a map, a way is found exactly if the walkable cells
that the points stand for are joined by steps. The same way is found with any factor by a grid that has
just taken over the map. -/
theorem isSome_findPath_uses_iff (hwidth : m.width.toNat = g₀.width) (hheight : m.height.toNat = g₀.height)
    (before : List Use) {after : List Use} (hafter : ∀ u ∈ after, u.KeepsCells)
    (hexpansion : 1 ≤ (g₀.uses (before ++ .map m :: after)).expansion) (start target : Point) :
    let g := g₀.uses (before ++ .map m :: after)
    ((g.findPath start target).isSome = true ↔ ∃ a b, m.Snaps (g.cellOf start) a ∧
        m.Snaps (g.cellOf target) b ∧ m.graph.Reachable a b) ∧
      ∀ factor, 1 ≤ factor →
        g.findPath start target = (g₀.uses [.map m, .factor factor]).findPath start target := by
  intro g
  have hshows : g.Shows m := shows_uses hwidth hheight before hafter
  refine ⟨hshows.isSome_findPath_iff hexpansion start target, fun factor hfactor => ?_⟩
  have hfresh : (g₀.uses [.map m, .factor factor]).Shows m :=
    shows_uses hwidth hheight [] (by simp [Use.KeepsCells])
  have hscreen := g₀.sameScreen_uses (before ++ .map m :: after)
  have hscreen' := g₀.sameScreen_uses [.map m, .factor factor]
  have heq : g₀.uses [.map m, .factor factor] = { g with expansion := factor } :=
    Shows.eq_of_sameScreen ⟨hshows.width, hshows.height, hshows.values⟩ hfresh
      ⟨hscreen'.width.trans hscreen.width.symm, hscreen'.height.trans hscreen.height.symm,
        hscreen'.cellSize.trans hscreen.cellSize.symm⟩ rfl
  rw [heq, findPath_expansion hexpansion hfactor]

/-- Two rows of three cells, joined only across the corner. -/
def stairs : WalkMap :=
  ⟨3, 2, #[1, 1, 0, 0, 0, 1], rfl⟩

theorem isSome_findPath_uses_stairs :
    let screen := ofScreen 30 20 10 3
    let before : List Use := [.map (.filled 3 2 1), .find ⟨5, 5⟩ ⟨25, 5⟩, .clear]
    let after : List Use := [.factor 1, .find ⟨25, 15⟩ ⟨5, 15⟩]
    let g := screen.uses (before ++ .map stairs :: after)
    stairs.width.toNat = screen.width ∧ stairs.height.toNat = screen.height ∧
      (∀ u ∈ after, u.KeepsCells) ∧ 1 ≤ g.expansion ∧
      ((g.findPath ⟨5, 5⟩ ⟨25, 5⟩).isSome = true ↔ ∃ a b, stairs.Snaps (g.cellOf ⟨5, 5⟩) a ∧
        stairs.Snaps (g.cellOf ⟨25, 5⟩) b ∧ stairs.graph.Reachable a b) := by
  intro screen before after g
  have hwidth : stairs.width.toNat = screen.width := by decide
  have hheight : stairs.height.toNat = screen.height := by decide
  have hafter : ∀ u ∈ after, u.KeepsCells := by simp [after, Use.KeepsCells]
  have hexpansion : 1 ≤ g.expansion := by decide
  exact ⟨hwidth, hheight, hafter, hexpansion,
    (isSome_findPath_uses_iff hwidth hheight before hafter hexpansion ⟨5, 5⟩ ⟨25, 5⟩).1⟩

/-- Cells whose size does not fit the points leave room for no second one. -/
theorem side_pos {screenWidth screenHeight cellSize : UInt32} {expansion : Nat}
    (harea : 1 < (ofScreen screenWidth screenHeight cellSize expansion).area) :
    0 < (ofScreen screenWidth screenHeight cellSize expansion).side := by
  unfold area ofScreen at harea
  unfold side ofScreen
  dsimp only at harea ⊢
  generalize hsize : max cellSize 1 = size at harea ⊢
  have hpos : 1 ≤ size.toNat := by
    rw [← hsize, UInt32.toNat_max]
    exact Nat.le_max_right _ _
  by_cases hsmall : 2 * size.toBitVec.toNat < UInt32.size
  · have hside : size.toInt32.toInt = size.toNat := BitVec.toInt_eq_toNat_of_lt hsmall
    omega
  · have hsingle : ∀ pixels : UInt32, max (pixels / size).toNat 1 = 1 := by
      intro pixels
      have hlt : pixels.toNat / size.toNat < 2 := by
        refine Nat.div_lt_of_lt_mul ?_
        have hpixels := pixels.toNat_lt
        have hlarge : UInt32.size ≤ 2 * size.toNat := Nat.not_lt.1 hsmall
        exact hpixels.trans_le (hlarge.trans (Nat.le_of_eq (Nat.mul_comm 2 _)))
      rw [UInt32.toNat_div]
      omega
    rw [hsingle, hsingle] at harea
    exact absurd harea (Nat.lt_irrefl 1)

theorem one_lt_area {j : Nat} (hi : g.isOpen i = true) (hj : g.isOpen j = true) (hne : i ≠ j) : 1 < g.area := by
  have hi' := lt_area_of_isOpen hi
  have hj' := lt_area_of_isOpen hj
  omega

/-- Whatever a grid was used for before it took over a map, the way that is found is a shortest one. -/
theorem shortestPath_uses {screenWidth screenHeight cellSize : UInt32} {expansion : Nat}
    (hwidth : m.width.toNat = (ofScreen screenWidth screenHeight cellSize expansion).width)
    (hheight : m.height.toNat = (ofScreen screenWidth screenHeight cellSize expansion).height)
    (before : List Use) {after : List Use} (hafter : ∀ u ∈ after, u.KeepsCells)
    {start target : Point} {points : List Point} :
    let g := (ofScreen screenWidth screenHeight cellSize expansion).uses (before ++ .map m :: after)
    1 ≤ g.expansion → m.Snaps (g.cellOf start) a → m.Snaps (g.cellOf target) b → a ≠ b →
      g.findPath start target = some points → g.ShortestPath m start target a b points := by
  intro g hexpansion ha hb hne hpath
  have hshows : g.Shows m := shows_uses hwidth hheight before hafter
  have hscreen := sameScreen_uses (ofScreen screenWidth screenHeight cellSize expansion) (before ++ .map m :: after)
  have hside : 0 < g.side := by
    obtain ⟨i, hi, hia⟩ := hshows.isOpen_iff.1 ha.isOpen
    obtain ⟨j, hj, hjb⟩ := hshows.isOpen_iff.1 hb.isOpen
    have hij : i ≠ j := by
      rintro rfl
      exact hne (hia.symm.trans hjb)
    have harea := one_lt_area hi hj hij
    rw [area, hscreen.width, hscreen.height] at harea
    rw [side, hscreen.cellSize]
    exact side_pos harea
  exact hshows.shortestPath hexpansion hside ha hb hne hpath

theorem shortestPath_uses_stairs :
    let g := (ofScreen 30 20 10 3).uses ([] ++ .map stairs :: [.find ⟨25, 15⟩ ⟨5, 5⟩])
    1 ≤ g.expansion ∧ stairs.Snaps (g.cellOf ⟨5, 5⟩) (0, 0) ∧ stairs.Snaps (g.cellOf ⟨25, 15⟩) (2, 1) ∧
      g.findPath ⟨5, 5⟩ ⟨25, 15⟩ = some [⟨5, 5⟩, ⟨15, 5⟩, ⟨25, 15⟩] ∧
      g.ShortestPath stairs ⟨5, 5⟩ ⟨25, 15⟩ (0, 0) (2, 1) [⟨5, 5⟩, ⟨15, 5⟩, ⟨25, 15⟩] := by
  intro g
  have ha : stairs.Snaps (g.cellOf ⟨5, 5⟩) (0, 0) := by
    have hcell : g.cellOf ⟨5, 5⟩ = (0, 0) := by decide
    rw [hcell]
    exact .own ⟨0, 0, 1, by decide, by decide, rfl⟩
  have hb : stairs.Snaps (g.cellOf ⟨25, 15⟩) (2, 1) := by
    have hcell : g.cellOf ⟨25, 15⟩ = (2, 1) := by decide
    rw [hcell]
    exact .own ⟨2, 1, 1, by decide, by decide, rfl⟩
  have hpath : g.findPath ⟨5, 5⟩ ⟨25, 15⟩ = some [⟨5, 5⟩, ⟨15, 5⟩, ⟨25, 15⟩] := by decide
  exact ⟨by decide, ha, hb, hpath, shortestPath_uses (by decide) (by decide) [] (by simp [Use.KeepsCells])
    (by decide) ha hb (by decide) hpath⟩

end Adventure.Walk.Grid
