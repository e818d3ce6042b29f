import Adventure.Proofs.Walk.Calls
import Adventure.Proofs.Walk.Path
/-! The rounds of a search and their bounds. A round ends, since its calls do; the next bound belongs to the end of a
path without repetition, and lies beyond the present one. So the bounds grow, there are not more of them than such ends
allow, and none exceeds the steps of a shortest way. -/
namespace Adventure.Walk

variable {t : Terrain} {size budget bound rounds limit extent start s : Nat} {path bounds : List Nat}
  {sum : Option Nat} {calls : List Call} {out : Outcome} {run : Nat → Verdict} {result : Option (List Nat)}

/-! ### Growing bounds -/

/-- The bounds of the rounds in turn, from the first one on, and what comes of the last round. -/
inductive Deepens (run : Nat → Verdict) : Nat → List Nat → Option (List Nat) → Prop where
  | found {bound : Nat} {path : List Nat} (h : run bound = .found path) : Deepens run bound [bound] (some path)
  | exhausted {bound : Nat} (h : run bound = .exhausted) : Deepens run bound [bound] none
  | blocked {bound : Nat} (h : run bound = .beyond none) : Deepens run bound [bound] none
  | next {bound sum : Nat} {bounds : List Nat} {result : Option (List Nat)} (h : run bound = .beyond (some sum))
      (hrest : Deepens run sum bounds result) : Deepens run bound (bound :: bounds) result

/-- What is true of the first bound, and of each sum after a bound of which it is true, is true of all bounds. -/
theorem Deepens.forall_mem {P : Nat → Prop} (h : Deepens run bound bounds result) (hfirst : P bound)
    (hnext : ∀ b s, run b = .beyond (some s) → P b → P s) : ∀ b ∈ bounds, P b := by
  induction h with
  | found => exact List.forall_mem_singleton.2 hfirst
  | exhausted => exact List.forall_mem_singleton.2 hfirst
  | blocked => exact List.forall_mem_singleton.2 hfirst
  | next h _ ih => exact List.forall_mem_cons.2 ⟨hfirst, ih (hnext _ _ h hfirst)⟩

theorem Deepens.pairwise (h : Deepens run bound bounds result)
    (hgrows : ∀ b s, run b = .beyond (some s) → b < s) : bounds.Pairwise (· < ·) := by
  induction h with
  | found => exact List.pairwise_singleton _ _
  | exhausted => exact List.pairwise_singleton _ _
  | blocked => exact List.pairwise_singleton _ _
  | @next bound sum bounds result h hrest ih =>
      have hlt := hgrows bound sum h
      have hbeyond : ∀ b ∈ bounds, bound < b :=
        hrest.forall_mem hlt fun b s hs hb => hb.trans (hgrows b s hs)
      exact List.pairwise_cons.2 ⟨hbeyond, ih⟩

/-- Where the sums stay below a limit, the rounds up to it are enough. -/
theorem exists_deepens_deepen (hgrows : ∀ b s, run b = .beyond (some s) → b < s ∧ s < limit) (hbound : bound < limit)
    (hrounds : limit ≤ bound + rounds) : ∃ bounds, Deepens run bound bounds (deepen run rounds bound) := by
  induction rounds generalizing bound with
  | zero => omega
  | succ rounds ih =>
      rw [deepen]
      cases hrun : run bound with
      | found path => exact ⟨[bound], .found hrun⟩
      | exhausted => exact ⟨[bound], .exhausted hrun⟩
      | beyond sum =>
          cases sum with
          | none => exact ⟨[bound], .blocked hrun⟩
          | some s =>
              obtain ⟨hlt, hlimit⟩ := hgrows bound s hrun
              obtain ⟨bounds, hdeepens⟩ := ih hlimit (by omega)
              exact ⟨bound :: bounds, .next hrun hdeepens⟩

/-! ### Rounds -/

namespace Terrain

theorem ready_opening (hstart : start < size) : (Task.search [start] 0).Ready size (opening size budget start) where
  size_eq := size_opening
  trodden := {
    nodup := List.nodup_singleton start
    lt := List.forall_mem_singleton.2 hstart
    entered := fun v rest hsuffix => by
      obtain ⟨rfl, rfl⟩ : v = start ∧ rest = [] := by
        rcases List.suffix_cons_iff.1 hsuffix with heq | hnil
        · exact ⟨(List.cons.inj heq).1, (List.cons.inj heq).2⟩
        · exact absurd (List.suffix_nil.1 hnil) (List.cons_ne_nil _ _)
      rw [entered_opening hstart, if_pos rfl]
      exact within_some.2 (Nat.le_refl 0) }
  cost_eq := rfl
  nodes_lt := nofun

theorem weight_opening_le (hstart : start < size) : (opening size budget start).weight size ≤ size * size := by
  refine Memo.weight_le fun v k hk => ?_
  rw [entered_opening hstart] at hk
  split at hk
  · cases hk
    exact Nat.zero_le size
  · cases hk

theorem runsTo_round (t : Terrain) (size budget start bound : Nat) :
    ∃ calls path memo, t.Runs bound (.search [start] 0) (opening size budget start) calls
      ⟨(round t size budget start bound).signal, path, memo⟩ ∧
      ∀ way, round t size budget start bound = .found way → path = way.reverse := by
  obtain ⟨calls, path, hruns, hfound⟩ :=
    runsTo_follow (Nat.zero_add (bound + 1)) start [] (opening size budget start) (t := t)
  refine ⟨calls, path, _, hruns, fun way hway => ?_⟩
  rw [hfound way hway, List.append_nil]

theorem beyond_of_signal {verdict : Verdict} (h : verdict.signal = .next sum) : verdict = .beyond sum := by
  cases verdict with
  | found path => cases h
  | beyond sum' => cases h; rfl
  | exhausted => cases h

/-- The sum of a round, with any budget, is at most the number of steps of any way. -/
theorem exists_le_of_round (ht : t.Sound size) (hstart : start < size)
    (hround : round t size budget start bound = .beyond sum) (hleads : t.Leads start path) :
    ∃ s ∈ sum, s + 1 ≤ path.length := by
  obtain ⟨calls, last, memo, hruns, -⟩ := runsTo_round t size budget start bound
  rw [hround] at hruns
  have hrich : (opening size budget start).Richer (opening size (max size budget) start) :=
    ⟨rfl, Nat.le_max_right size budget⟩
  obtain ⟨rich, hruns', -⟩ := hruns.richer nofun hrich
  obtain ⟨calls', last', memo', hruns'', -⟩ := runsTo_round t size (max size budget) start bound
  have hsignal := congrArg Outcome.signal (hruns''.unique hruns').2
  have hroundsTo := round_roundsTo ht hstart (Nat.le_max_left size budget) bound
  rw [beyond_of_signal hsignal] at hroundsTo
  cases hroundsTo with
  | beyond _ hleast => exact hleast path hleads

/-- The sum of a round belongs to the end of a path without repetition. -/
theorem Runs.sum_lt (ht : t.Sound size) (hstart : start < size) (hextent : ∀ v < size, t.estimate v < extent)
    (h : t.Runs bound (.search [start] 0) (opening size budget start) calls out) (hout : out.signal = .next sum)
    (hs : s ∈ sum) : bound < s ∧ s + 1 < size + extent := by
  rcases h.reported hout hs with hnone | ⟨hbeyond, ⟨node, hnode, heq⟩ | ⟨call, hcall, heq⟩⟩
  · cases hnone
  · cases hnode
    have hestimate := hextent start hstart
    have hcost : s = 0 + t.estimate start := heq
    exact ⟨hbeyond, by omega⟩
  · have hextends := h.extends ht.closed (ready_opening hstart) call hcall
    have hestimate := hextent call.node hextends.node_lt
    have hcost := hextends.cost_lt
    exact ⟨hbeyond, by omega⟩

theorem round_grows (ht : t.Sound size) (hstart : start < size) (hextent : ∀ v < size, t.estimate v < extent)
    (hround : round t size budget start bound = .beyond (some s)) : bound < s ∧ s + 1 < size + extent := by
  obtain ⟨calls, last, memo, hruns, -⟩ := runsTo_round t size budget start bound
  rw [hround] at hruns
  exact hruns.sum_lt ht hstart hextent rfl rfl

end Terrain

/-! ### Searches of the grid -/

namespace Grid

variable {g : Grid} {m : WalkMap} {i v goal : Nat}

theorem estimate_lt (hgoal : goal < g.area) (hv : v < g.area) :
    (g.terrain goal).estimate v < max g.width g.height := by
  have hwidth : 0 < g.width := Nat.pos_of_mul_pos_right (Nat.zero_lt_of_lt hv)
  have hapart : ∀ {a b n : Nat}, a < n → b < n → ((a : Int) - b).natAbs < n := by omega
  have hcolumn : (g.column v - g.column goal).natAbs < g.width :=
    hapart (Nat.mod_lt v hwidth) (Nat.mod_lt goal hwidth)
  have hrow : (g.row v - g.row goal).natAbs < g.height :=
    hapart (Nat.div_lt_of_lt_mul hv) (Nat.div_lt_of_lt_mul hgoal)
  refine (g.terrain_estimate_le goal v).trans_lt (max_lt ?_ ?_)
  · exact hcolumn.trans_le (le_max_left _ _)
  · exact hrow.trans_le (le_max_right _ _)

/-- The cells of a map are so few that no sum leaves the range of 32 bits. -/
theorem Shows.area_add_lt (h : g.Shows m) : g.area + max g.width g.height < UInt32.size := by
  have hwidth : g.width ≤ 65535 := h.width ▸ Nat.le_of_lt_succ m.width.toNat_lt
  have hheight : g.height ≤ 65535 := h.height ▸ Nat.le_of_lt_succ m.height.toNat_lt
  have harea : g.area ≤ 65535 * 65535 := Nat.mul_le_mul hwidth hheight
  have hsize : UInt32.size = 4294967296 := rfl
  omega

/-- The search from one cell for another makes these calls and comes to this outcome. -/
def Searches (g : Grid) (i goal bound budget : Nat) (calls : List Call) (out : Outcome) : Prop :=
  (g.terrain goal).Runs bound (.search [i] 0) (Terrain.opening g.area budget i) calls out

/-- The rounds of the search from one cell for another have these bounds and come to this result. -/
def Deepened (g : Grid) (i goal : Nat) (bounds : List Nat) (result : Option (List Nat)) : Prop :=
  Deepens (round (g.terrain goal) g.area (g.expansion * g.area) i) ((g.terrain goal).estimate i) bounds result

/-- What a search within a bound does until it ends. -/
structure SearchEnds (g : Grid) (i goal bound budget : Nat) : Prop where
  /-- It ends as the round does, and a way that is found is what it leaves of the path. -/
  ends : ∃ calls path memo,
    g.Searches i goal bound budget calls ⟨(round (g.terrain goal) g.area budget i bound).signal, path, memo⟩ ∧
      ∀ way, round (g.terrain goal) g.area budget i bound = .found way → path = way.reverse
  /-- No path comes to a cell twice. -/
  nodup : ∀ {calls out}, g.Searches i goal bound budget calls out →
    ∀ call ∈ calls, (call.node :: call.path).Nodup ∧ call.node < g.area
  /-- Each call lowers the cost of its cell, which can only be done so often. -/
  lowers : ∀ {calls out}, g.Searches i goal bound budget calls out →
    Lowers (Terrain.opening g.area budget i) calls out.memo ∧ calls.length ≤ g.area * g.area
  /-- From any path and memo on, where a sum is reported the path is left as it was, and the sum lies beyond the
  bound. -/
  next : ∀ {path cost memo calls out sum}, (g.terrain goal).Runs bound (.search path cost) memo calls out →
    out.signal = .next sum → out.path = path ∧ ∀ s ∈ sum, bound < s
  sum_lt : ∀ {calls out sum}, g.Searches i goal bound budget calls out → out.signal = .next sum →
    ∀ s ∈ sum, s + 1 < g.area + max g.width g.height

/-- What the rounds of a search do until they end. -/
structure RoundsEnd (g : Grid) (i goal : Nat) : Prop where
  ends : ∃ bounds, g.Deepened i goal bounds (g.cellPath? i goal)
  growing : ∀ {bounds result}, g.Deepened i goal bounds result → bounds.Pairwise (· < ·)
  length_le : ∀ {bounds result}, g.Deepened i goal bounds result →
    bounds.length ≤ g.area + max g.width g.height
  /-- No bound exceeds the steps of a way; a way has one node more. -/
  steps : ∀ {bounds result way}, g.Deepened i goal bounds result → (g.terrain goal).Leads i way →
    ∀ b ∈ bounds, b + 1 ≤ way.length
  dist : ∀ {bounds result m}, g.Deepened i goal bounds result → g.Shows m →
    m.graph.Reachable (g.position i) (g.position goal) →
      ∀ b ∈ bounds, b ≤ m.graph.dist (g.position i) (g.position goal)

theorem searchEnds (hi : i < g.area) (hgoal : goal < g.area) (bound budget : Nat) :
    g.SearchEnds i goal bound budget := by
  have ht := g.terrain_sound goal
  have hready : (Task.search [i] 0).Ready g.area (Terrain.opening g.area budget i) := Terrain.ready_opening hi
  have hextends : ∀ {calls out}, g.Searches i goal bound budget calls out →
      ∀ call ∈ calls, call.Extends g.area := fun h => h.extends ht.closed hready
  exact {
    ends := Terrain.runsTo_round _ _ _ _ _
    nodup := fun h call hcall => ⟨(hextends h call hcall).nodup, (hextends h call hcall).node_lt⟩
    lowers := fun {calls out} h => by
      have hlength := h.lowers.length_add_weight_le hready.size_eq fun call hcall =>
        ⟨(hextends h call hcall).node_lt, (hextends h call hcall).cost_lt⟩
      have hweight : (Terrain.opening g.area budget i).weight g.area ≤ g.area * g.area :=
        Terrain.weight_opening_le hi
      exact ⟨h.lowers, by omega⟩
    next := fun h hout => by
      refine ⟨h.path_eq hout, fun s hs => ?_⟩
      rcases h.reported hout hs with hnone | ⟨hbeyond, -⟩
      · cases hnone
      · exact hbeyond
    sum_lt := fun h hout s hs => (h.sum_lt ht hi (fun v hv => estimate_lt hgoal hv) hout hs).2 }

theorem roundsEnd (hi : g.isOpen i = true) (hgoal : goal < g.area) : g.RoundsEnd i goal := by
  have ht := g.terrain_sound goal
  have hi' := lt_area_of_isOpen hi
  have hfirst := estimate_lt hgoal hi'
  have hgrows : ∀ b s, round (g.terrain goal) g.area (g.expansion * g.area) i b = .beyond (some s) →
      b < s ∧ s < g.area + max g.width g.height := by
    intro b s hround
    obtain ⟨hlt, hlimit⟩ := Terrain.round_grows ht hi' (fun v hv => estimate_lt hgoal hv) hround
    exact ⟨hlt, by omega⟩
  have hgrowing : ∀ {bounds result}, g.Deepened i goal bounds result → bounds.Pairwise (· < ·) :=
    fun h => h.pairwise fun b s hround => (hgrows b s hround).1
  have hsteps : ∀ {bounds result way}, g.Deepened i goal bounds result → (g.terrain goal).Leads i way →
      ∀ b ∈ bounds, b + 1 ≤ way.length := by
    intro bounds result way h hleads
    refine h.forall_mem (ht.admissible hleads) fun b s hround _ => ?_
    obtain ⟨s', hs', hle⟩ := Terrain.exists_le_of_round ht hi' hround hleads
    cases hs'
    exact hle
  exact {
    ends := exists_deepens_deepen hgrows (by omega) (by omega)
    growing := hgrowing
    length_le := fun h => by
      have hlimit : ∀ b ∈ _, b < g.area + max g.width g.height :=
        h.forall_mem (by omega) fun b s hround _ => (hgrows b s hround).2
      exact length_le_of_forall_lt ((hgrowing h).imp Nat.ne_of_lt) hlimit
    steps := hsteps
    dist := fun h hshows hreachable b hb => by
      obtain ⟨w, hw⟩ := hreachable.exists_walk_length_eq_dist
      obtain ⟨way, hleads, hsupport⟩ := hshows.exists_leads w hi rfl rfl
      have hlength := congrArg List.length hsupport
      rw [List.length_map, SimpleGraph.Walk.length_support, hw] at hlength
      have hle := hsteps h hleads b hb
      omega }

/-- Between two walkable cells a search ends with any bound and any budget, and so does the whole of its rounds. -/
theorem searches_end (g : Grid) (hi : g.isOpen i = true) (hgoal : g.isOpen goal = true) :
    (∀ bound budget, g.SearchEnds i goal bound budget) ∧ g.RoundsEnd i goal ∧
      ∀ m, g.Shows m → g.area + max g.width g.height < UInt32.size :=
  ⟨searchEnds (lt_area_of_isOpen hi) (lt_area_of_isOpen hgoal), roundsEnd hi (lt_area_of_isOpen hgoal),
    fun _ hshows => hshows.area_add_lt⟩

theorem searches_end_stairs :
    let g := (ofScreen 30 20 10 3).use (.map stairs)
    g.isOpen 0 = true ∧ g.isOpen 5 = true ∧ g.cellPath? 0 5 = some [0, 1, 5] ∧
      (∀ bound budget, g.SearchEnds 0 5 bound budget) ∧ g.RoundsEnd 0 5 ∧
      g.area + max g.width g.height < UInt32.size := by
  intro g
  have hstart : g.isOpen 0 = true := by decide
  have hgoal : g.isOpen 5 = true := by decide
  obtain ⟨hsearch, hrounds, hsize⟩ := searches_end g hstart hgoal
  exact ⟨hstart, hgoal, by decide, hsearch, hrounds, hsize stairs (shows_use_map (by decide) (by decide))⟩

end Grid
end Adventure.Walk
