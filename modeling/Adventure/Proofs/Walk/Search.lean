import Adventure.Proofs.Walk.Explore
/-! Search for a shortest way. The sum of a round that finds no way is at most the length of any way, so
that a search finds a way if there is one, and the first one that it finds is a shortest. The budget makes
no difference if it is enough for all nodes. -/
namespace Adventure.Walk.Terrain

variable {t : Terrain} {size budget bound left rounds cost start node v w : Nat} {path : List Nat}
  {sum sum' : Option Nat} {memo memo' memo'' : Memo}

/-! ### Rounds -/

/-- Where every node that was entered is explored, the sum is at most the number of steps of any way. -/
theorem Leads.within_sum (h : t.Leads v path) (ht : t.Sound size) (hexplored : ∀ v, t.Explored memo sum v)
    {steps : Nat} (hentered : Within steps (memo.entered v)) : ∃ s ∈ sum, s + 1 ≤ steps + path.length := by
  induction h generalizing steps with
  | goal =>
      obtain ⟨k, hk, hle⟩ := hentered
      rcases hexplored _ k hk with ⟨s, hs, hsum⟩ | ⟨hgoal, -⟩
      · have hestimate := ht.admissible .goal
        exact ⟨s, hs, by omega⟩
      · exact absurd rfl hgoal
  | @step v w path hw h ih =>
      obtain ⟨k, hk, hle⟩ := hentered
      rcases hexplored v k hk with ⟨s, hs, hsum⟩ | ⟨-, hnext⟩
      · have hestimate := ht.admissible (.step hw h)
        exact ⟨s, hs, by omega⟩
      · obtain ⟨s, hs, hsum⟩ := ih ((hnext w hw).mono (Nat.succ_le_succ hle))
        refine ⟨s, hs, hsum.trans ?_⟩
        rw [List.length_cons]
        omega

/-- What a round can come to. -/
inductive RoundsTo (t : Terrain) (start bound : Nat) : Verdict → Prop where
  | found {path : List Nat} (hleads : t.Leads start path) (hlength : path.length ≤ bound + 1) :
      RoundsTo t start bound (.found path)
  | beyond {sum : Option Nat} (hbeyond : ∀ s ∈ sum, bound < s)
      (hleast : ∀ path, t.Leads start path → ∃ s ∈ sum, s + 1 ≤ path.length) :
      RoundsTo t start bound (.beyond sum)

/-- The memo at the start of a round. -/
def opening (size budget start : Nat) : Memo where
  costs := (Array.replicate size none).setIfInBounds start (some 0)
  budget

theorem size_opening : (opening size budget start).costs.size = size := by
  simp [opening]

theorem ample_opening (hbudget : size ≤ budget) : (opening size budget start).Ample :=
  (Array.countP_le_size.trans (Nat.le_of_eq size_opening)).trans hbudget

theorem entered_opening (hstart : start < size) (v : Nat) :
    (opening size budget start).entered v = if v = start then some 0 else none := by
  unfold opening Memo.entered
  simp only [Array.getD_eq_getD_getElem?, Array.getElem?_setIfInBounds, Array.getElem?_replicate]
  by_cases hv : v = start
  · subst hv
    simp [hstart]
  · rw [if_neg (Ne.symm hv), if_neg hv]
    split <;> rfl

theorem round_roundsTo (ht : t.Sound size) (hstart : start < size) (hbudget : size ≤ budget) (bound : Nat) :
    t.RoundsTo start bound (round t size budget start bound) := by
  have hentered : (opening size budget start).entered start = some (bound + 1 - (bound + 1)) := by
    rw [entered_opening hstart, if_pos rfl, Nat.sub_self]
  have hfollows := follow_follows ht (Nat.le_refl _) hstart size_opening (ample_opening hbudget) hentered
  rw [round, ← opening]
  generalize follow t bound (bound + 1) start (opening size budget start) = result at hfollows ⊢
  cases hfollows with
  | found hleads hlength => exact .found hleads hlength
  | @beyond sum memo' hexplores hstarted =>
      have hexplored : ∀ v, t.Explored memo' sum v := by
        intro v
        rcases hexplores.explored v with hsame | hexplored
        · by_cases hv : v = start
          · exact hv ▸ hstarted
          · intro k hk
            rw [hsame, entered_opening hstart, if_neg hv] at hk
            cases hk
        · exact hexplored
      have hzero : Within 0 (memo'.entered start) := by
        refine hexplores.lowers start 0 ?_
        rw [entered_opening hstart, if_pos rfl]
        exact within_some.2 (Nat.le_refl 0)
      refine .beyond hexplores.beyond fun path hleads => ?_
      simpa using hleads.within_sum ht hexplored hzero

/-! ### Growing bounds -/

/-- The nodes of a shortest way. -/
def Shortest (t : Terrain) (start : Nat) (path : List Nat) : Prop :=
  t.Leads start path ∧ ∀ path', t.Leads start path' → path.length ≤ path'.length

theorem shortest_of_deepen {run : Nat → Verdict} (hrun : ∀ bound, t.RoundsTo start bound (run bound))
    (hbound : ∀ path, t.Leads start path → bound + 1 ≤ path.length)
    (hfound : deepen run rounds bound = some path) : t.Shortest start path := by
  induction rounds generalizing bound with
  | zero => cases hfound
  | succ rounds ih =>
      have hrounds := hrun bound
      rw [deepen] at hfound
      generalize run bound = verdict at hrounds hfound
      cases hrounds with
      | found hleads hlength =>
          cases hfound
          exact ⟨hleads, fun path' hleads' => hlength.trans (hbound path' hleads')⟩
      | @beyond sum _ hleast =>
          cases sum with
          | none => cases hfound
          | some s =>
              refine ih (fun path' hleads' => ?_) hfound
              obtain ⟨s', hs', hlength⟩ := hleast path' hleads'
              cases hs'
              exact hlength

theorem isSome_deepen {run : Nat → Verdict} (hrun : ∀ bound, t.RoundsTo start bound (run bound))
    (hbound : ∀ path, t.Leads start path → bound + 1 ≤ path.length) (hleads : t.Leads start path)
    (hrounds : path.length ≤ bound + rounds) : (deepen run rounds bound).isSome = true := by
  induction rounds generalizing bound with
  | zero => exact absurd (hbound path hleads) (Nat.not_succ_le_self _ ∘ (Nat.le_trans · hrounds))
  | succ rounds ih =>
      have hround := hrun bound
      rw [deepen]
      generalize run bound = verdict at hround
      cases hround with
      | found => rfl
      | beyond hbeyond hleast =>
          obtain ⟨s, rfl, -⟩ := hleast path hleads
          have hlt : bound < s := hbeyond s rfl
          refine ih (fun path' hleads' => ?_) (by omega)
          obtain ⟨s', hs', hlength⟩ := hleast path' hleads'
          cases hs'
          exact hlength

theorem shortest_of_search (ht : t.Sound size) (hstart : start < size) (hbudget : size ≤ budget)
    (hfound : search t size budget rounds start = some path) : t.Shortest start path :=
  shortest_of_deepen (round_roundsTo ht hstart hbudget) (fun _ hleads => ht.admissible hleads) hfound

/-- A search of as many rounds as there are nodes finds a way if there is one. -/
theorem isSome_search_iff (ht : t.Sound size) (hstart : start < size) (hbudget : size ≤ budget)
    (hrounds : size ≤ rounds) :
    (search t size budget rounds start).isSome = true ↔ ∃ path, t.Leads start path := by
  constructor
  · intro hsome
    obtain ⟨path, hpath⟩ := Option.isSome_iff_exists.1 hsome
    exact ⟨path, (shortest_of_search ht hstart hbudget hpath).1⟩
  · rintro ⟨path, hleads⟩
    obtain ⟨path', hleads', hlength⟩ := hleads.exists_short ht hstart
    refine isSome_deepen (round_roundsTo ht hstart hbudget) (fun _ hleads => ht.admissible hleads) hleads' ?_
    omega

/-! ### The budget -/

/-- Memos with the same costs whose budgets both last. -/
structure Alike (size : Nat) (memo memo' : Memo) : Prop where
  costs : memo.costs = memo'.costs
  size_eq : memo.costs.size = size
  left : memo.Ample
  right : memo'.Ample

theorem Alike.entered (h : Alike size memo memo') (v : Nat) : memo'.entered v = memo.entered v := by
  rw [Memo.entered, ← h.costs]
  rfl

theorem Alike.enter (h : Alike size memo memo') (hnode : node < size) (cost : Nat) :
    Alike size (memo.enter cost node) (memo'.enter cost node) where
  costs := congrArg (Array.setIfInBounds · node (some cost)) h.costs
  size_eq := (memo.size_enter cost node).trans h.size_eq
  left := h.left.enter (h.size_eq ▸ hnode) cost
  right := h.right.enter (h.costs ▸ h.size_eq ▸ hnode) cost

/-- The same verdict, with memos that are alike. -/
inductive AlikeResults (size : Nat) : Verdict × Memo → Verdict × Memo → Prop where
  | intro {memo memo' : Memo} (verdict : Verdict) (h : Alike size memo memo') :
      AlikeResults size (verdict, memo) (verdict, memo')

theorem Alike.scan (h : Alike size memo memo') {visit : Nat → Memo → Verdict × Memo} {nodes : List Nat}
    (hvisit : ∀ node {memo memo'}, Alike size memo memo' →
      AlikeResults size (visit node memo) (visit node memo'))
    (hnodes : ∀ w ∈ nodes, w < size) (cost : Nat) (sum : Option Nat) :
    AlikeResults size (Walk.scan visit cost nodes sum memo) (Walk.scan visit cost nodes sum memo') := by
  induction nodes generalizing sum memo memo' with
  | nil => exact .intro (.beyond sum) h
  | cons node nodes ih =>
      have hnode : node < size := hnodes node List.mem_cons_self
      have hrest : ∀ w ∈ nodes, w < size := fun w hw => hnodes w (List.mem_cons_of_mem node hw)
      rw [Walk.scan, Walk.scan]
      by_cases hclosed : Within cost (memo.entered node)
      · rw [Memo.access_of_within hclosed, Memo.access_of_within (h.entered node ▸ hclosed)]
        exact ih h hrest sum
      · rw [Memo.access_of_not_within h.left (h.size_eq ▸ hnode) hclosed,
          Memo.access_of_not_within h.right (h.costs ▸ h.size_eq ▸ hnode) (h.entered node ▸ hclosed)]
        have hresults := hvisit node (h.enter hnode cost)
        dsimp only
        generalize visit node (memo.enter cost node) = result at hresults ⊢
        generalize visit node (memo'.enter cost node) = result' at hresults ⊢
        obtain ⟨verdict, halike⟩ := hresults
        cases verdict with
        | beyond sum' => exact ih halike hrest (least sum sum')
        | found path => exact .intro (.found path) halike
        | exhausted => exact .intro .exhausted halike

theorem Alike.follow (h : Alike size memo memo') (hclosed : ∀ v, ∀ w ∈ t.neighbours v, w < size)
    (bound left node : Nat) :
    AlikeResults size (Walk.follow t bound left node memo) (Walk.follow t bound left node memo') := by
  induction left generalizing node memo memo' with
  | zero => exact .intro _ h
  | succ left ih =>
      rw [Walk.follow, Walk.follow]
      split
      · exact .intro _ h
      · split
        · exact .intro _ h
        · have hresults := h.scan (fun node {_ _} h => ih h node) (hclosed node) (bound - left + 1) none
          generalize Walk.scan (Walk.follow t bound left) _ _ _ memo = result at hresults ⊢
          generalize Walk.scan (Walk.follow t bound left) _ _ _ memo' = result' at hresults ⊢
          obtain ⟨verdict, halike⟩ := hresults
          cases verdict with
          | beyond sum => exact .intro (.beyond sum) halike
          | found path => exact .intro (.found (node :: path)) halike
          | exhausted => exact .intro .exhausted halike

theorem round_budget {budget' : Nat} (hclosed : ∀ v, ∀ w ∈ t.neighbours v, w < size)
    (hbudget : size ≤ budget) (hbudget' : size ≤ budget') (bound : Nat) :
    round t size budget start bound = round t size budget' start bound := by
  have halike : Alike size (opening size budget start) (opening size budget' start) :=
    ⟨rfl, size_opening, ample_opening hbudget, ample_opening hbudget'⟩
  have hresults := halike.follow hclosed bound (bound + 1) start
  rw [round, round, ← opening, ← opening]
  generalize follow t bound (bound + 1) start (opening size budget start) = result at hresults ⊢
  generalize follow t bound (bound + 1) start (opening size budget' start) = result' at hresults ⊢
  cases hresults
  rfl

/-- A budget for all nodes never cuts a search off. -/
theorem search_budget {budget' : Nat} (hclosed : ∀ v, ∀ w ∈ t.neighbours v, w < size)
    (hbudget : size ≤ budget) (hbudget' : size ≤ budget') :
    search t size budget rounds start = search t size budget' rounds start := by
  have hround : round t size budget start = round t size budget' start :=
    funext (round_budget hclosed hbudget hbudget')
  rw [search, search, hround]

end Adventure.Walk.Terrain
