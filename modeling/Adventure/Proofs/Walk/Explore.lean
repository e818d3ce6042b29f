import Mathlib.Data.List.Nodup
import Mathlib.Data.List.Perm.Subperm
import Mathlib.Order.MinMax
import Adventure.Walk.Search
/-! Ways across a terrain, and how a round of the search explores it. A round finds a way within its bound,
or it leaves a memo in which every node that was entered is explored. A budget for all nodes lasts. -/
namespace Adventure.Walk

variable {t : Terrain} {size budget bound left rounds cost start node v w : Nat} {path : List Nat}
  {sum sum' : Option Nat} {memo memo' memo'' : Memo}

/-! ### Sums -/

/-- A number that is there and not above a limit. -/
def Within (n : Nat) (o : Option Nat) : Prop :=
  ∃ k ∈ o, k ≤ n

theorem within_some {n k : Nat} : Within n (some k) ↔ k ≤ n := by
  simp [Within]

theorem Within.mono {n m : Nat} {o : Option Nat} (h : Within n o) (hle : n ≤ m) : Within m o := by
  obtain ⟨k, hk, hkn⟩ := h
  exact ⟨k, hk, Nat.le_trans hkn hle⟩

theorem within_least {n : Nat} : Within n (least sum sum') ↔ Within n sum ∨ Within n sum' := by
  cases sum <;> cases sum' <;> simp [least, Within]

theorem mem_least {s : Nat} (h : s ∈ least sum sum') : s ∈ sum ∨ s ∈ sum' := by
  cases sum with
  | none => exact .inr h
  | some a =>
      cases sum' with
      | none => exact .inl h
      | some b =>
          rw [least, Option.mem_some_iff] at h
          rcases min_choice a b with hmin | hmin
          · exact .inl (by rw [← h, hmin]; rfl)
          · exact .inr (by rw [← h, hmin]; rfl)

@[simp] theorem least_none (sum : Option Nat) : least sum none = sum := by
  cases sum <;> rfl

theorem least_assoc (a b c : Option Nat) : least (least a b) c = least a (least b c) := by
  cases a <;> cases b <;> cases c <;> simp [least, Nat.min_assoc]

/-! ### Memos -/

namespace Memo

/-- The least cost at which a node was entered. -/
def entered (memo : Memo) (v : Nat) : Option Nat :=
  memo.costs.getD v none

/-- The budget lasts for all nodes that were not entered yet. -/
def Ample (memo : Memo) : Prop :=
  memo.costs.countP Option.isNone ≤ memo.budget

theorem entered_enter (h : node < memo.costs.size) (cost v : Nat) :
    (memo.enter cost node).entered v = if v = node then some cost else memo.entered v := by
  unfold entered enter
  simp only [Array.getD_eq_getD_getElem?, Array.getElem?_setIfInBounds]
  by_cases hv : v = node
  · subst hv
    simp [h]
  · simp [hv, Ne.symm hv]

theorem size_enter (memo : Memo) (cost node : Nat) : (memo.enter cost node).costs.size = memo.costs.size :=
  Array.size_setIfInBounds

theorem budget_pos (hample : memo.Ample) (h : node < memo.costs.size) (hnew : memo.entered node = none) :
    0 < memo.budget := by
  refine Nat.lt_of_lt_of_le (Array.countP_pos_iff.2 ⟨none, ?_, rfl⟩) hample
  have hget : memo.costs[node] = none := by simpa [entered, h] using hnew
  exact hget ▸ Array.getElem_mem h

theorem Ample.enter (hample : memo.Ample) (h : node < memo.costs.size) (cost : Nat) :
    (memo.enter cost node).Ample := by
  have hget : memo.costs.getD node none = memo.costs[node] := by simp [h]
  have hcount : (memo.enter cost node).costs.countP Option.isNone =
      memo.costs.countP Option.isNone - if memo.costs[node].isNone then 1 else 0 := by
    have hset : (memo.enter cost node).costs = memo.costs.set node (some cost) h := by
      simp [Memo.enter, Array.setIfInBounds, h]
    rw [hset, Array.countP_set]
    simp
  rw [Ample, hcount, Memo.enter]
  dsimp only
  rw [hget]
  exact Nat.sub_le_sub_right hample _

theorem access_of_within (h : Within cost (memo.entered node)) : memo.access cost node = .closed := by
  obtain ⟨k, hk, hle⟩ := h
  have hget : memo.costs.getD node none = some k := hk
  rw [access, hget]
  exact if_pos hle

theorem access_of_not_within (hample : memo.Ample) (hnode : node < memo.costs.size)
    (h : ¬Within cost (memo.entered node)) : memo.access cost node = .free := by
  unfold access
  split
  · next k hk => exact if_neg fun hle => h ⟨k, hk, hle⟩
  · next hnew => exact if_neg (Nat.ne_of_gt (budget_pos hample hnode hnew))

end Memo

/-! ### Ways -/

/-- A way from a node to the goal, with all nodes on it. -/
inductive Terrain.Leads (t : Terrain) : Nat → List Nat → Prop where
  | goal : Leads t t.goal [t.goal]
  | step {v w : Nat} {path : List Nat} (hw : w ∈ t.neighbours v) (h : Leads t w path) :
      Leads t v (v :: path)

/-- A terrain whose nodes are the numbers below `size`. -/
structure Terrain.Sound (t : Terrain) (size : Nat) : Prop where
  closed : ∀ v, ∀ w ∈ t.neighbours v, w < size
  /-- The estimate is at most the number of steps, which is one less than that of the nodes. -/
  admissible : ∀ {v path}, t.Leads v path → t.estimate v + 1 ≤ path.length

namespace Terrain

theorem Leads.exists_cons (h : t.Leads v path) : ∃ rest, path = v :: rest := by
  cases h with
  | goal => exact ⟨_, rfl⟩
  | step _ _ => exact ⟨_, rfl⟩

theorem Leads.exists_cons_cons (h : t.Leads v path) (hv : v ≠ t.goal) : ∃ w rest, path = v :: w :: rest := by
  cases h with
  | goal => exact absurd rfl hv
  | step _ h =>
      obtain ⟨rest, rfl⟩ := h.exists_cons
      exact ⟨_, rest, rfl⟩

theorem Leads.getLast? (h : t.Leads v path) : path.getLast? = some t.goal := by
  induction h with
  | goal => rfl
  | step _ h ih =>
      obtain ⟨rest, rfl⟩ := h.exists_cons
      rw [List.getLast?_cons_cons, ih]

/-- The way goes on from each of its nodes. -/
theorem Leads.suffix (h : t.Leads v path) (hw : w ∈ path) : ∃ rest, t.Leads w rest ∧ rest <:+ path := by
  induction h with
  | goal =>
      rw [List.mem_singleton] at hw
      subst hw
      exact ⟨_, .goal, List.suffix_refl _⟩
  | step hnext h ih =>
      rcases List.mem_cons.1 hw with rfl | hw
      · exact ⟨_, .step hnext h, List.suffix_refl _⟩
      · obtain ⟨rest, hrest, hsuffix⟩ := ih hw
        exact ⟨rest, hrest, hsuffix.trans (List.suffix_cons _ _)⟩

/-- A way can be cut down to one that comes to no node twice. -/
theorem Leads.exists_nodup (h : t.Leads v path) : ∃ path', t.Leads v path' ∧ path'.Nodup ∧ path' ⊆ path := by
  induction h with
  | goal => exact ⟨_, .goal, List.nodup_singleton _, List.Subset.refl _⟩
  | @step v w path hnext h ih =>
      obtain ⟨path', hleads, hnodup, hsub⟩ := ih
      by_cases hv : v ∈ path'
      · obtain ⟨rest, hrest, hsuffix⟩ := hleads.suffix hv
        exact ⟨rest, hrest, hnodup.sublist hsuffix.sublist,
          fun x hx => List.mem_cons_of_mem v (hsub (hsuffix.subset hx))⟩
      · exact ⟨_, .step hnext hleads, List.nodup_cons.2 ⟨hv, hnodup⟩, List.cons_subset_cons v hsub⟩

theorem Leads.lt (h : t.Leads v path) (hclosed : ∀ v, ∀ w ∈ t.neighbours v, w < size) (hv : v < size) :
    ∀ x ∈ path, x < size := by
  induction h with
  | goal => simpa using hv
  | step hnext _ ih =>
      rintro x (_ | ⟨_, hx⟩)
      · exact hv
      · exact ih (hclosed _ _ hnext) x hx

/-- If there is a way at all, there is one of at most as many nodes as the terrain has. -/
theorem Leads.exists_short (h : t.Leads v path) (ht : t.Sound size) (hv : v < size) :
    ∃ path', t.Leads v path' ∧ path'.length ≤ size := by
  obtain ⟨path', hleads, hnodup, -⟩ := h.exists_nodup
  have hsub : path' ⊆ List.range size := fun x hx => List.mem_range.2 (hleads.lt ht.closed hv x hx)
  exact ⟨path', hleads, by simpa using (hnodup.subperm hsub).length_le⟩

/-! ### Exploring -/

/-- A node has been dealt with at the cost at which it was entered: its sum was reported, or all its
neighbours were entered. -/
def Explored (t : Terrain) (memo : Memo) (sum : Option Nat) (v : Nat) : Prop :=
  ∀ k ∈ memo.entered v, Within (k + t.estimate v) sum ∨
    v ≠ t.goal ∧ ∀ w ∈ t.neighbours v, Within (k + 1) (memo.entered w)

/-- From one memo to another: nodes that were entered on the way are explored. -/
structure Explores (t : Terrain) (bound : Nat) (memo memo' : Memo) (sum : Option Nat) : Prop where
  size : memo'.costs.size = memo.costs.size
  ample : memo'.Ample
  lowers : ∀ v n, Within n (memo.entered v) → Within n (memo'.entered v)
  explored : ∀ v, memo'.entered v = memo.entered v ∨ t.Explored memo' sum v
  beyond : ∀ s ∈ sum, bound < s

theorem Explored.mono (h : t.Explored memo sum v) (hsame : memo'.entered v = memo.entered v)
    (hlowers : ∀ w n, Within n (memo.entered w) → Within n (memo'.entered w))
    (hsum : ∀ n, Within n sum → Within n sum') : t.Explored memo' sum' v := by
  intro k hk
  rcases h k (hsame ▸ hk) with hwithin | ⟨hgoal, hnext⟩
  · exact .inl (hsum _ hwithin)
  · exact .inr ⟨hgoal, fun w hw => hlowers w _ (hnext w hw)⟩

theorem Explores.refl (hample : memo.Ample) (hbeyond : ∀ s ∈ sum, bound < s) :
    t.Explores bound memo memo sum :=
  ⟨rfl, hample, fun _ _ h => h, fun _ => .inl rfl, hbeyond⟩

theorem Explores.trans (h : t.Explores bound memo memo' sum) (h' : t.Explores bound memo' memo'' sum') :
    t.Explores bound memo memo'' (least sum sum') where
  size := h'.size.trans h.size
  ample := h'.ample
  lowers v n hn := h'.lowers v n (h.lowers v n hn)
  explored v := by
    rcases h'.explored v with hsame' | hexplored
    · rcases h.explored v with hsame | hexplored
      · exact .inl (hsame'.trans hsame)
      · exact .inr (hexplored.mono hsame' h'.lowers fun n hn => within_least.2 (.inl hn))
    · exact .inr (hexplored.mono rfl (fun _ _ hn => hn) fun n hn => within_least.2 (.inr hn))
  beyond s hs := (mem_least hs).elim (h.beyond s) (h'.beyond s)

/-- Entering a node and exploring it. -/
theorem Explores.enter (hnode : node < memo.costs.size) (hfree : ¬Within cost (memo.entered node))
    (h : t.Explores bound (memo.enter cost node) memo' sum) (hexplored : t.Explored memo' sum node) :
    t.Explores bound memo memo' sum where
  size := h.size.trans (memo.size_enter cost node)
  ample := h.ample
  lowers v n hn := by
    refine h.lowers v n ?_
    rw [Memo.entered_enter hnode]
    split
    · next hv =>
      subst hv
      rw [within_some]
      by_contra hlt
      exact hfree (hn.mono (Nat.le_of_lt (Nat.not_le.1 hlt)))
    · exact hn
  explored v := by
    by_cases hv : v = node
    · exact .inr (hv ▸ hexplored)
    · refine (h.explored v).imp_left fun hsame => ?_
      rw [hsame, Memo.entered_enter hnode, if_neg hv]
  beyond := h.beyond

/-- What becomes of following the ways from a node. -/
inductive Follows (t : Terrain) (bound left node : Nat) (memo : Memo) : Verdict × Memo → Prop where
  | found {path : List Nat} {memo' : Memo} (hleads : t.Leads node path) (hlength : path.length ≤ left) :
      Follows t bound left node memo (.found path, memo')
  | beyond {sum : Option Nat} {memo' : Memo} (hexplores : t.Explores bound memo memo' sum)
      (hexplored : t.Explored memo' sum node) : Follows t bound left node memo (.beyond sum, memo')

/-- What becomes of entering the nodes of a list. -/
inductive Scans (t : Terrain) (bound left cost : Nat) (nodes : List Nat) (sum : Option Nat) (memo : Memo) :
    Verdict × Memo → Prop where
  | found {w : Nat} {path : List Nat} {memo' : Memo} (hw : w ∈ nodes) (hleads : t.Leads w path)
      (hlength : path.length ≤ left) : Scans t bound left cost nodes sum memo (.found path, memo')
  | beyond {added : Option Nat} {memo' : Memo} (hexplores : t.Explores bound memo memo' added)
      (hentered : ∀ w ∈ nodes, Within cost (memo'.entered w)) :
      Scans t bound left cost nodes sum memo (.beyond (least sum added), memo')

theorem Scans.cons {nodes : List Nat} {added : Option Nat} {result : Verdict × Memo}
    (h : t.Scans bound left cost nodes (least sum added) memo' result)
    (hexplores : t.Explores bound memo memo' added) (hentered : Within cost (memo'.entered node)) :
    t.Scans bound left cost (node :: nodes) sum memo result := by
  cases h with
  | found hw hleads hlength => exact .found (List.mem_cons_of_mem node hw) hleads hlength
  | beyond hrest hall =>
      rw [least_assoc]
      refine .beyond (hexplores.trans hrest) fun w hw => ?_
      rcases List.mem_cons.1 hw with rfl | hw
      · exact hrest.lowers w cost hentered
      · exact hall w hw

theorem scan_scans {visit : Nat → Memo → Verdict × Memo} {nodes : List Nat}
    (hvisit : ∀ {node memo}, node < size → memo.costs.size = size → memo.Ample →
      memo.entered node = some cost → t.Follows bound left node memo (visit node memo))
    (hnodes : ∀ w ∈ nodes, w < size) (hsize : memo.costs.size = size) (hample : memo.Ample) :
    t.Scans bound left cost nodes sum memo (scan visit cost nodes sum memo) := by
  induction nodes generalizing sum memo with
  | nil =>
      have hrefl : t.Explores bound memo memo none := .refl hample (by simp)
      have hscans : t.Scans bound left cost [] sum memo (.beyond (least sum none), memo) :=
        .beyond hrefl (by simp)
      rwa [least_none] at hscans
  | cons node nodes ih =>
      have hnode : node < memo.costs.size := hsize ▸ hnodes node List.mem_cons_self
      have hrest : ∀ w ∈ nodes, w < size := fun w hw => hnodes w (List.mem_cons_of_mem node hw)
      rw [scan]
      by_cases hclosed : Within cost (memo.entered node)
      · rw [Memo.access_of_within hclosed]
        have hrefl : t.Explores bound memo memo none := .refl hample (by simp)
        exact Scans.cons (by rw [least_none]; exact ih hrest hsize hample) hrefl hclosed
      · rw [Memo.access_of_not_within hample hnode hclosed]
        have hentered : (memo.enter cost node).entered node = some cost := by
          rw [Memo.entered_enter hnode, if_pos rfl]
        have hfollows := hvisit (hnodes node List.mem_cons_self) ((memo.size_enter cost node).trans hsize)
          (hample.enter hnode cost) hentered
        dsimp only
        generalize visit node (memo.enter cost node) = result at hfollows ⊢
        cases hfollows with
        | found hleads hlength => exact .found List.mem_cons_self hleads hlength
        | @beyond sum' memo₁ hexplores hexplored =>
            have hsize₁ : memo₁.costs.size = size :=
              hexplores.size.trans ((memo.size_enter cost node).trans hsize)
            refine (ih hrest hsize₁ hexplores.ample).cons (hexplores.enter hnode hclosed hexplored) ?_
            refine hexplores.lowers node cost ?_
            rw [hentered]
            exact within_some.2 (Nat.le_refl cost)

/-- A node whose steps and estimate exceed the bound is explored by its sum. -/
theorem Follows.of_estimate (hcost : memo.entered node = some cost) (hample : memo.Ample)
    (hbound : bound < cost + t.estimate node) :
    t.Follows bound left node memo (.beyond (some (cost + t.estimate node)), memo) := by
  refine .beyond (.refl hample fun s hs => ?_) fun k hk => .inl ?_
  · cases hs
    exact hbound
  · cases hcost.symm.trans hk
    exact within_some.2 (Nat.le_refl _)

theorem follow_follows (ht : t.Sound size) (hleft : left ≤ bound + 1) (hnode : node < size)
    (hsize : memo.costs.size = size) (hample : memo.Ample) (hcost : memo.entered node = some (bound + 1 - left)) :
    t.Follows bound left node memo (follow t bound left node memo) := by
  induction left generalizing node memo with
  | zero =>
      have hbound : bound < bound + 1 + t.estimate node :=
        Nat.lt_of_lt_of_le (Nat.lt_succ_self bound) (Nat.le_add_right _ _)
      exact .of_estimate hcost hample hbound
  | succ left ih =>
      have hsteps : bound + 1 - (left + 1) = bound - left := Nat.add_sub_add_right bound 1 left
      rw [hsteps] at hcost
      rw [follow]
      split
      · next hbound => exact .of_estimate hcost hample hbound
      · split
        · next hgoal =>
          subst hgoal
          exact .found .goal (Nat.le_add_left 1 left)
        · next hgoal =>
          have hnext : bound - left + 1 = bound + 1 - left := by omega
          have hscans : t.Scans bound left (bound - left + 1) (t.neighbours node) none memo
              (scan (follow t bound left) (bound - left + 1) (t.neighbours node) none memo) :=
            scan_scans (fun hnode hsize hample hcost => ih (by omega) hnode hsize hample (hnext ▸ hcost))
              (ht.closed node) hsize hample
          generalize scan (follow t bound left) (bound - left + 1) (t.neighbours node) none memo = result
            at hscans ⊢
          cases hscans with
          | found hw hleads hlength => exact .found (.step hw hleads) (Nat.succ_le_succ hlength)
          | @beyond added memo' hexplores hentered =>
              refine .beyond hexplores ?_
              -- The node may have been entered again at a lower cost, and then it is explored already.
              rcases hexplores.explored node with hsame | hexplored
              · intro k hk
                cases hcost.symm.trans (hsame ▸ hk)
                exact .inr ⟨hgoal, hentered⟩
              · exact hexplored

end Terrain
end Adventure.Walk
