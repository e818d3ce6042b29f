import Mathlib.Algebra.Order.Group.Unbundled.Int
import Mathlib.Combinatorics.SimpleGraph.Metric
import Adventure.Proofs.Walk.Search
import Adventure.Walk.Path
/-! The cells of a grid as positions on the plane. A cell is open where the walk map has a value other
than 0, and a step leads to one of the eight cells around. -/
namespace Adventure

namespace WalkMap

/-- The map has a walkable cell at the position. -/
def IsOpen (m : WalkMap) (c : Int × Int) : Prop :=
  ∃ x y value, m.get? x y = some value ∧ value ≠ 0 ∧ c = ((x.toNat : Int), (y.toNat : Int))

/-- One cell comes before another row after row. -/
def Before (c d : Int × Int) : Prop :=
  c.2 < d.2 ∨ c.2 = d.2 ∧ c.1 < d.1

def squaredDistance (c d : Int × Int) : Int :=
  (c.1 - d.1) * (c.1 - d.1) + (c.2 - d.2) * (c.2 - d.2)

/-- The walkable cell that a position stands for: its own, or else the nearest one, and among several the
first. -/
inductive Snaps (m : WalkMap) (p : Int × Int) : Int × Int → Prop where
  | own (h : m.IsOpen p) : Snaps m p p
  | nearest {c : Int × Int} (hblocked : ¬m.IsOpen p) (hopen : m.IsOpen c)
      (hnearest : ∀ d, m.IsOpen d → d ≠ c → squaredDistance c p < squaredDistance d p ∨
        squaredDistance c p = squaredDistance d p ∧ Before c d) : Snaps m p c

theorem Snaps.isOpen {m : WalkMap} {p c : Int × Int} (h : m.Snaps p c) : m.IsOpen c := by
  cases h with
  | own hopen => exact hopen
  | nearest _ hopen _ => exact hopen

theorem Snaps.unique {m : WalkMap} {p c d : Int × Int} (hc : m.Snaps p c) (hd : m.Snaps p d) : c = d := by
  cases hc with
  | own hopen =>
      cases hd with
      | own => rfl
      | nearest hblocked _ _ => exact absurd hopen hblocked
  | nearest hblocked hopen hnearest =>
      cases hd with
      | own hopen' => exact absurd hopen' hblocked
      | nearest _ hopen' hnearest' =>
          by_contra hne
          have hcd := hnearest d hopen' (Ne.symm hne)
          have hdc := hnearest' c hopen hne
          unfold Before at hcd hdc
          omega

/-- The walkable cells, with the steps to the eight cells around. -/
def graph (m : WalkMap) : SimpleGraph (Int × Int) where
  Adj c d := c ≠ d ∧ (c.1 - d.1).natAbs ≤ 1 ∧ (c.2 - d.2).natAbs ≤ 1 ∧ m.IsOpen c ∧ m.IsOpen d
  symm := ⟨fun c d ⟨hne, hx, hy, hc, hd⟩ => ⟨hne.symm, by omega, by omega, hd, hc⟩⟩
  loopless := ⟨fun _ h => h.1 rfl⟩

theorem isOpen_of_adj {m : WalkMap} {c d : Int × Int} (h : m.graph.Adj c d) : m.IsOpen d :=
  h.2.2.2.2

end WalkMap

namespace Walk

/-- The number of steps between two cells if nothing is in the way. -/
def chebyshev (c d : Int × Int) : Nat :=
  max (c.1 - d.1).natAbs (c.2 - d.2).natAbs

@[simp] theorem chebyshev_self (c : Int × Int) : chebyshev c c = 0 := by
  simp [chebyshev]

theorem chebyshev_pos {c d : Int × Int} (h : c ≠ d) : 0 < chebyshev c d := by
  rw [Ne, Prod.ext_iff] at h
  unfold chebyshev
  omega

theorem chebyshev_triangle (c d e : Int × Int) : chebyshev c e ≤ chebyshev c d + chebyshev d e := by
  have hx : (c.1 - e.1).natAbs ≤ (c.1 - d.1).natAbs + (d.1 - e.1).natAbs := by omega
  have hy : (c.2 - e.2).natAbs ≤ (c.2 - d.2).natAbs + (d.2 - e.2).natAbs := by omega
  exact max_le (hx.trans (Nat.add_le_add (le_max_left _ _) (le_max_left _ _)))
    (hy.trans (Nat.add_le_add (le_max_right _ _) (le_max_right _ _)))

theorem chebyshev_le_one_iff {c d : Int × Int} :
    chebyshev c d ≤ 1 ↔ (c.1 - d.1).natAbs ≤ 1 ∧ (c.2 - d.2).natAbs ≤ 1 := by
  unfold chebyshev
  omega

namespace Grid
variable {g : Grid} {m : WalkMap} {i j goal : Nat} {c : Int × Int}

/-! ### Positions -/

def position (g : Grid) (index : Nat) : Int × Int :=
  (g.column index, g.row index)

theorem position_inj : g.position i = g.position j ↔ i = j := by
  constructor
  · intro h
    obtain ⟨hcolumn, hrow⟩ := Prod.mk.inj h
    rw [← Nat.div_add_mod i g.width, ← Nat.div_add_mod j g.width, Int.ofNat.inj hcolumn, Int.ofNat.inj hrow]
  · rintro rfl
    rfl

theorem index?_eq_some_iff {cx cy : Int} :
    g.index? cx cy = some i ↔ i < g.area ∧ g.position i = (cx, cy) := by
  unfold index? position column row area
  split
  · next h =>
    obtain ⟨hx, hxw, hy, hyh⟩ := h
    have hxw' : cx.toNat < g.width := by omega
    have hyh' : cy.toNat < g.height := by omega
    have hpos : 0 < g.width := Nat.zero_lt_of_lt hxw'
    rw [Option.some.injEq]
    constructor
    · rintro rfl
      refine ⟨?_, ?_⟩
      · calc cy.toNat * g.width + cx.toNat
            < cy.toNat * g.width + g.width := Nat.add_lt_add_left hxw' _
          _ = (cy.toNat + 1) * g.width := (Nat.succ_mul _ _).symm
          _ ≤ g.height * g.width := Nat.mul_le_mul_right _ hyh'
          _ = g.width * g.height := Nat.mul_comm _ _
      · rw [Nat.mul_add_mod_of_lt hxw', Nat.mul_comm, Nat.mul_add_div hpos, Nat.div_eq_of_lt hxw',
          Nat.add_zero, Int.toNat_of_nonneg hx, Int.toNat_of_nonneg hy]
    · rintro ⟨-, heq⟩
      obtain ⟨rfl, rfl⟩ := Prod.mk.inj heq
      rw [Int.toNat_natCast, Int.toNat_natCast, Nat.mul_comm, Nat.div_add_mod]
  · next h =>
    refine iff_of_false (fun hnone => nomatch hnone) ?_
    rintro ⟨hi, heq⟩
    obtain ⟨rfl, rfl⟩ := Prod.mk.inj heq
    have hpos : 0 < g.width := Nat.pos_of_mul_pos_right (Nat.zero_lt_of_lt hi)
    exact h ⟨Int.natCast_nonneg _, Int.ofNat_lt.2 (Nat.mod_lt i hpos), Int.natCast_nonneg _,
      Int.ofNat_lt.2 (Nat.div_lt_of_lt_mul hi)⟩

theorem lt_area_of_isOpen (h : g.isOpen i = true) : i < g.area := by
  by_contra hle
  have hsize : g.values.size ≤ i := by
    rw [g.size_values]
    exact Nat.not_lt.1 hle
  simp [isOpen, hsize] at h

/-! ### The cells of a map -/

/-- The grid has taken over the cells of the map. -/
structure Shows (g : Grid) (m : WalkMap) : Prop where
  width : m.width.toNat = g.width
  height : m.height.toNat = g.height
  values : g.values = m.cells

/-- The open positions of the map are those of the open cells. -/
theorem Shows.isOpen_iff (h : g.Shows m) : m.IsOpen c ↔ ∃ i, g.isOpen i = true ∧ g.position i = c := by
  constructor
  · rintro ⟨x, y, value, hvalue, hne, rfl⟩
    unfold WalkMap.get? WalkMap.index? at hvalue
    split at hvalue
    · next hin =>
      rw [UInt16.lt_iff_toNat_lt, UInt16.lt_iff_toNat_lt, h.width, h.height] at hin
      have hindex : g.index? x.toNat y.toNat = some (y.toNat * g.width + x.toNat) := by
        rw [index?, if_pos (by omega)]
        rfl
      refine ⟨_, ?_, (index?_eq_some_iff.1 hindex).2⟩
      rw [Option.bind_some, h.width, ← h.values] at hvalue
      simp [isOpen, Array.getD_eq_getD_getElem?, hvalue, hne]
    · cases hvalue
  · rintro ⟨i, hopen, rfl⟩
    have hi := lt_area_of_isOpen hopen
    have hpos : 0 < g.width := Nat.pos_of_mul_pos_right (Nat.zero_lt_of_lt hi)
    have hx : (UInt16.ofNat (i % g.width)).toNat = i % g.width := by
      have hlt := (Nat.mod_lt i hpos).trans_le (h.width ▸ Nat.le_of_lt m.width.toNat_lt)
      exact UInt16.toNat_ofNat_of_lt' hlt
    have hy : (UInt16.ofNat (i / g.width)).toNat = i / g.width := by
      have hlt := (Nat.div_lt_of_lt_mul hi).trans_le (h.height ▸ Nat.le_of_lt m.height.toNat_lt)
      exact UInt16.toNat_ofNat_of_lt' hlt
    have hsize : i < g.values.size := by
      rw [g.size_values]
      exact hi
    refine ⟨.ofNat (i % g.width), .ofNat (i / g.width), g.values[i], ?_, ?_, ?_⟩
    · have hindex : m.index? (.ofNat (i % g.width)) (.ofNat (i / g.width)) = some i := by
        rw [WalkMap.index?, if_pos, hx, hy, h.width, Nat.mul_comm, Nat.div_add_mod]
        rw [UInt16.lt_iff_toNat_lt, UInt16.lt_iff_toNat_lt, hx, hy, h.width, h.height]
        exact ⟨Nat.mod_lt i hpos, Nat.div_lt_of_lt_mul hi⟩
      rw [WalkMap.get?, hindex, Option.bind_some, ← h.values, Array.getElem?_eq_getElem hsize]
    · simpa [isOpen, hsize] using hopen
    · rw [hx, hy]
      rfl

theorem Shows.isOpen_position (h : g.Shows m) : m.IsOpen (g.position i) ↔ g.isOpen i = true := by
  rw [h.isOpen_iff]
  constructor
  · rintro ⟨j, hopen, hposition⟩
    exact position_inj.1 hposition ▸ hopen
  · exact fun hopen => ⟨i, hopen, rfl⟩

/-! ### Neighbours -/

theorem mem_directions_iff {d : Int × Int} :
    d ∈ directions ↔ d ≠ (0, 0) ∧ d.1.natAbs ≤ 1 ∧ d.2.natAbs ≤ 1 := by
  constructor
  · have hall : ∀ d ∈ directions, d ≠ (0, 0) ∧ d.1.natAbs ≤ 1 ∧ d.2.natAbs ≤ 1 := by decide
    exact hall d
  · rintro ⟨hne, hx, hy⟩
    obtain ⟨dx, dy⟩ := d
    have hdx : dx = -1 ∨ dx = 0 ∨ dx = 1 := by omega
    have hdy : dy = -1 ∨ dy = 0 ∨ dy = 1 := by omega
    rcases hdx with rfl | rfl | rfl <;> rcases hdy with rfl | rfl | rfl
    case inr.inl.inr.inl => exact absurd rfl hne
    all_goals decide

theorem mem_neighbours_iff : j ∈ g.neighbours i ↔
    g.isOpen j = true ∧ j ≠ i ∧ chebyshev (g.position i) (g.position j) ≤ 1 := by
  rw [neighbours, List.mem_filter, List.mem_filterMap, and_comm, chebyshev_le_one_iff]
  refine and_congr_right fun hopen => ?_
  have hj := lt_area_of_isOpen hopen
  constructor
  · rintro ⟨d, hd, hindex⟩
    obtain ⟨hne, hx, hy⟩ := mem_directions_iff.1 hd
    obtain ⟨-, hposition⟩ := index?_eq_some_iff.1 hindex
    refine ⟨?_, ?_⟩
    · rintro rfl
      obtain ⟨hcolumn, hrow⟩ := Prod.mk.inj hposition
      exact hne (Prod.ext (by simpa using hcolumn.symm) (by simpa using hrow.symm))
    · rw [hposition]
      simp only [position]
      omega
  · rintro ⟨hne, hx, hy⟩
    refine ⟨(g.column j - g.column i, g.row j - g.row i), mem_directions_iff.2 ⟨?_, ?_, ?_⟩,
      index?_eq_some_iff.2 ⟨hj, ?_⟩⟩
    · intro hzero
      obtain ⟨hcolumn, hrow⟩ := Prod.mk.inj hzero
      exact hne (position_inj.1 (Prod.ext (Int.sub_eq_zero.1 hcolumn) (Int.sub_eq_zero.1 hrow)))
    · simpa [position, ← Int.natAbs_neg (g.column i - g.column j)] using hx
    · simpa [position, ← Int.natAbs_neg (g.row i - g.row j)] using hy
    · simp [position]

theorem Shows.adj_iff (h : g.Shows m) (hi : g.isOpen i = true) :
    m.graph.Adj (g.position i) (g.position j) ↔ j ∈ g.neighbours i := by
  rw [mem_neighbours_iff, chebyshev_le_one_iff]
  change g.position i ≠ g.position j ∧ _ ∧ _ ∧ m.IsOpen (g.position i) ∧ m.IsOpen (g.position j) ↔ _
  rw [h.isOpen_position, h.isOpen_position, Ne, position_inj]
  constructor
  · rintro ⟨hne, hx, hy, -, hj⟩
    exact ⟨hj, Ne.symm hne, hx, hy⟩
  · rintro ⟨hj, hne, hx, hy⟩
    exact ⟨Ne.symm hne, hx, hy, hi, hj⟩

/-! ### The terrain -/

theorem terrain_neighbours (hi : i < g.area) : (g.terrain goal).neighbours i = g.neighbours i := by
  simp [terrain, Array.getD_eq_getD_getElem?, hi]

theorem terrain_neighbours_subset : (g.terrain goal).neighbours i ⊆ g.neighbours i := by
  by_cases hi : i < g.area
  · rw [terrain_neighbours hi]
    exact List.Subset.refl _
  · simp [terrain, Array.getD_eq_getD_getElem?, hi]

theorem terrain_estimate_le (g : Grid) (goal i : Nat) :
    (g.terrain goal).estimate i ≤ chebyshev (g.position i) (g.position goal) := by
  by_cases hi : i < g.area
  · simp only [terrain, Array.getD_eq_getD_getElem?, Array.getElem?_ofFn, hi, dif_pos, Option.getD_some]
    exact Nat.sub_le _ 1
  · simp [terrain, Array.getD_eq_getD_getElem?, hi]

/-- A way has more nodes than the steps it takes if nothing is in the way. -/
theorem chebyshev_lt_of_leads {path : List Nat} (h : (g.terrain goal).Leads i path) :
    chebyshev (g.position i) (g.position goal) + 1 ≤ path.length := by
  induction h with
  | goal =>
      rw [show (g.terrain goal).goal = goal from rfl, chebyshev_self]
      exact Nat.le_refl 1
  | @step v w path hw _ ih =>
      have hstep := (mem_neighbours_iff.1 (terrain_neighbours_subset hw)).2.2
      have htriangle := chebyshev_triangle (g.position v) (g.position w) (g.position goal)
      rw [List.length_cons]
      omega

theorem terrain_sound (g : Grid) (goal : Nat) : (g.terrain goal).Sound g.area where
  closed _ _ hw := lt_area_of_isOpen (mem_neighbours_iff.1 (terrain_neighbours_subset hw)).1
  admissible h := (Nat.succ_le_succ (g.terrain_estimate_le goal _)).trans (chebyshev_lt_of_leads h)

/-! ### The nearest cell -/

theorem before_position_iff : WalkMap.Before (g.position i) (g.position j) ↔ i < j := by
  unfold WalkMap.Before position row column
  rw [Int.ofNat_lt, Int.ofNat_lt, Int.natCast_inj]
  have hi := Nat.div_add_mod i g.width
  have hj := Nat.div_add_mod j g.width
  constructor
  · rintro (hrow | ⟨hrow, hcolumn⟩)
    · exact Nat.lt_of_div_lt_div hrow
    · rw [hrow] at hi
      omega
  · intro hlt
    rcases Nat.lt_or_eq_of_le (Nat.div_le_div_right (c := g.width) (Nat.le_of_lt hlt)) with hrow | hrow
    · exact .inl hrow
    · rw [hrow] at hi
      exact .inr ⟨hrow, by omega⟩

/-- One cell is nearer than another, or equally near and not after it. -/
def NotFarther (g : Grid) (p : Int × Int) (i j : Nat) : Prop :=
  g.squaredDistance p.1 p.2 i < g.squaredDistance p.1 p.2 j ∨
    g.squaredDistance p.1 p.2 i = g.squaredDistance p.1 p.2 j ∧ i ≤ j

theorem foldl_nearer_some {p : Int × Int} {indices : List Nat} (hsorted : (i :: indices).Pairwise (· < ·)) :
    ∃ k ∈ i :: indices, indices.foldl (g.nearer p.1 p.2) (some i) = some k ∧
      ∀ j ∈ i :: indices, g.NotFarther p k j := by
  induction indices generalizing i with
  | nil => exact ⟨i, List.mem_cons_self, rfl, by simp [NotFarther]⟩
  | cons j indices ih =>
      obtain ⟨hi, hj⟩ := List.pairwise_cons.1 hsorted
      have hlt := hi j List.mem_cons_self
      rw [List.foldl_cons, nearer]
      split
      · next hnearer =>
        obtain ⟨k, hk, hfold, hall⟩ := ih hj
        refine ⟨k, List.mem_cons_of_mem i hk, hfold, ?_⟩
        rintro x (_ | ⟨_, hx⟩)
        · have hkj := hall j List.mem_cons_self
          unfold NotFarther at hkj ⊢
          omega
        · exact hall x hx
      · next hnearer =>
        have hi' : (i :: indices).Pairwise (· < ·) :=
          List.pairwise_cons.2 ⟨fun x hx => hi x (List.mem_cons_of_mem j hx), (List.pairwise_cons.1 hj).2⟩
        obtain ⟨k, hk, hfold, hall⟩ := ih hi'
        refine ⟨k, ?_, hfold, ?_⟩
        · rcases List.mem_cons.1 hk with rfl | hk
          · exact List.mem_cons_self
          · exact List.mem_cons_of_mem i (List.mem_cons_of_mem j hk)
        · have hki := hall i List.mem_cons_self
          rintro x (_ | ⟨_, _ | ⟨_, hx⟩⟩)
          · exact hki
          · unfold NotFarther at hki ⊢
            omega
          · exact hall x (List.mem_cons_of_mem i hx)

theorem openCells_sorted (g : Grid) : ((List.range g.area).filter g.isOpen).Pairwise (· < ·) :=
  List.pairwise_lt_range.filter _

theorem mem_openCells : i ∈ (List.range g.area).filter g.isOpen ↔ g.isOpen i = true := by
  rw [List.mem_filter, List.mem_range, and_iff_right_iff_imp]
  exact lt_area_of_isOpen

/-- Of two distinct cells one is nearer, or equally near and before the other. -/
theorem notFarther_iff {p : Int × Int} (hne : i ≠ j) : g.NotFarther p i j ↔
    WalkMap.squaredDistance (g.position i) p < WalkMap.squaredDistance (g.position j) p ∨
      WalkMap.squaredDistance (g.position i) p = WalkMap.squaredDistance (g.position j) p ∧
        WalkMap.Before (g.position i) (g.position j) := by
  rw [before_position_iff, ← Nat.le_iff_lt_or_eq.trans (or_iff_left hne)]
  exact Iff.rfl

theorem index?_filter_isOpen {p : Int × Int} :
    (g.index? p.1 p.2).filter g.isOpen = some i ↔ g.isOpen i = true ∧ g.position i = p := by
  rw [Option.filter_eq_some_iff, index?_eq_some_iff]
  constructor
  · rintro ⟨⟨-, hposition⟩, hopen⟩
    exact ⟨hopen, hposition⟩
  · rintro ⟨hopen, hposition⟩
    exact ⟨⟨lt_area_of_isOpen hopen, hposition⟩, hopen⟩

theorem Shows.index?_filter_eq_none (h : g.Shows m) {p : Int × Int} :
    (g.index? p.1 p.2).filter g.isOpen = none ↔ ¬m.IsOpen p := by
  rw [h.isOpen_iff, Option.eq_none_iff_forall_ne_some]
  simp only [ne_eq, index?_filter_isOpen, not_exists]

theorem nearest?_of_isOpen {p : Int × Int} (hopen : g.isOpen i = true) (hposition : g.position i = p) :
    g.nearest? p.1 p.2 = some i := by
  rw [nearest?, index?_filter_isOpen.2 ⟨hopen, hposition⟩]

theorem Shows.nearest?_of_blocked (h : g.Shows m) {p : Int × Int} (hblocked : ¬m.IsOpen p)
    (hopen : g.isOpen i = true) : ∃ k, g.nearest? p.1 p.2 = some k ∧ g.isOpen k = true ∧
      ∀ j, g.isOpen j = true → g.NotFarther p k j := by
  rw [nearest?, h.index?_filter_eq_none.2 hblocked]
  have hsorted := g.openCells_sorted
  have hmem : ∀ i, i ∈ (List.range g.area).filter g.isOpen ↔ g.isOpen i = true := fun _ => mem_openCells
  generalize (List.range g.area).filter g.isOpen = cells at hsorted hmem
  cases cells with
  | nil => exact absurd ((hmem i).2 hopen) List.not_mem_nil
  | cons j cells =>
      obtain ⟨k, hk, hfold, hall⟩ := foldl_nearer_some (g := g) (p := p) hsorted
      exact ⟨k, hfold, (hmem k).1 hk, fun x hx => hall x ((hmem x).2 hx)⟩

theorem isOpen_of_nearest? {cx cy : Int} (hnearest : g.nearest? cx cy = some i) : g.isOpen i = true := by
  unfold nearest? at hnearest
  split at hnearest
  · next hown =>
    cases hnearest
    exact (index?_filter_isOpen (p := (cx, cy)).1 hown).1
  · refine mem_openCells.1 ?_
    have hsorted := g.openCells_sorted
    generalize (List.range g.area).filter g.isOpen = cells at hsorted hnearest
    cases cells with
    | nil => cases hnearest
    | cons j cells =>
        obtain ⟨k, hk, hfold, -⟩ := foldl_nearer_some (g := g) (p := (cx, cy)) hsorted
        cases hfold.symm.trans hnearest
        exact hk

/-- The nearest cell is the one that the position stands for on the map. -/
theorem Shows.snaps_iff (h : g.Shows m) {p : Int × Int} :
    m.Snaps p c ↔ ∃ i, g.nearest? p.1 p.2 = some i ∧ g.position i = c := by
  have hfound : ∀ {i}, g.isOpen i = true → ∃ k, g.nearest? p.1 p.2 = some k ∧ m.Snaps p (g.position k) := by
    intro i hi
    by_cases hopen : m.IsOpen p
    · obtain ⟨k, hk, hposition⟩ := h.isOpen_iff.1 hopen
      exact ⟨k, nearest?_of_isOpen hk hposition, hposition ▸ .own (hposition ▸ hopen)⟩
    · obtain ⟨k, hnearest, hk, hall⟩ := h.nearest?_of_blocked hopen hi
      refine ⟨k, hnearest, .nearest hopen (h.isOpen_position.2 hk) fun d hd hne => ?_⟩
      obtain ⟨j, hj, rfl⟩ := h.isOpen_iff.1 hd
      exact (notFarther_iff (mt (congrArg g.position) (Ne.symm hne))).1 (hall j hj)
  constructor
  · intro hsnaps
    obtain ⟨i, hi, -⟩ := h.isOpen_iff.1 hsnaps.isOpen
    obtain ⟨k, hnearest, hsnaps'⟩ := hfound hi
    exact ⟨k, hnearest, hsnaps'.unique hsnaps⟩
  · rintro ⟨i, hnearest, rfl⟩
    obtain ⟨k, hnearest', hsnaps⟩ := hfound (isOpen_of_nearest? hnearest)
    cases hnearest.symm.trans hnearest'
    exact hsnaps

end Grid
end Walk
end Adventure
