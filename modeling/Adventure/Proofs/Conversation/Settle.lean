import Mathlib.Data.Fintype.Pigeonhole
import Mathlib.Logic.Relation
import Adventure.Conversation.Play
/-! Where a conversation settles. Every node either keeps the conversation, leads to another node or ends
it. Settling follows these leads to the first node that keeps it. The bound on the visits is never felt: more
visits than there are nodes come back to a node, and from there the leads go round for ever. -/
namespace Adventure.Conversation

/-! ### Leads -/

/-- What a target stands for: the first node of its name, unless it is the exit. -/
inductive Lands (c : Conversation) (target : String) : Option Nat → Prop where
  | exit (h : Text.same target exitTarget) : Lands c target none
  | unknown (h : ∀ node ∈ c.nodes, ¬Text.same node.name target) : Lands c target none
  | node {i : Nat} {node : Node} (hexit : ¬Text.same target exitTarget) (hnode : c.nodes[i]? = some node)
      (hname : Text.same node.name target)
      (hfirst : ∀ j < i, ∀ other, c.nodes[j]? = some other → ¬Text.same other.name target) :
      Lands c target (some i)

/-- Where a node leads: by its first open goto if it shows no entry and a goto is open, and else by its
fallthrough if it shows few entries. -/
inductive Leads (c : Conversation) (vars : Variables) (node : Node) : Option Nat → Prop where
  | goto {before after : List Goto} {g : Goto} {next : Option Nat} (hshown : c.shownCount node = 0)
      (hgotos : node.gotos = before ++ g :: after) (hbefore : ∀ b ∈ before, ¬vars.meets b.condition)
      (hopen : vars.meets g.condition) (hlands : c.Lands g.target next) : Leads c vars node next
  | fallthrough {target : String} {next : Option Nat}
      (hclosed : c.shownCount node = 0 → ∀ g ∈ node.gotos, ¬vars.meets g.condition)
      (hfew : c.shownCount node ≤ node.fallthroughNum) (htarget : node.fallthrough = some target)
      (hlands : c.Lands target next) : Leads c vars node next
  | nowhere (hclosed : c.shownCount node = 0 → ∀ g ∈ node.gotos, ¬vars.meets g.condition)
      (hfew : c.shownCount node ≤ node.fallthroughNum) (htarget : node.fallthrough = none) :
      Leads c vars node none

variable {c : Conversation} {vars : Variables}

theorem lands_land? (c : Conversation) (target : String) : c.Lands target (c.land? target) := by
  unfold land?
  split
  · next hexit => exact .exit hexit
  · next hexit =>
    cases hfind : c.nodes.findIdx? fun node => Text.same node.name target with
    | none =>
        apply Lands.unknown
        intro node hnode
        simpa using List.findIdx?_eq_none_iff.1 hfind node hnode
    | some i =>
        obtain ⟨hi, hname, hfirst⟩ := List.findIdx?_eq_some_iff_getElem.1 hfind
        apply Lands.node hexit (List.getElem?_eq_getElem hi) hname
        intro j hj other hother
        obtain ⟨_, rfl⟩ := List.getElem?_eq_some_iff.1 hother
        simpa using hfirst j hj

theorem Lands.eq_land? {target : String} {next : Option Nat} (h : c.Lands target next) :
    next = c.land? target := by
  cases h with
  | exit h => rw [land?, if_pos h]
  | unknown h =>
      rw [land?]
      split
      · rfl
      · exact (List.findIdx?_eq_none_iff.2 fun node hnode => by simpa using h node hnode).symm
  | node hexit hnode hname hfirst =>
      obtain ⟨hi, rfl⟩ := List.getElem?_eq_some_iff.1 hnode
      rw [land?, if_neg hexit]
      refine (List.findIdx?_eq_some_iff_getElem.2 ⟨hi, hname, fun j hj => ?_⟩).symm
      exact hfirst j hj _ (List.getElem?_eq_getElem (hj.trans hi))

theorem openGoto?_eq_some_iff {gotos : List Goto} {g : Goto} : openGoto? gotos vars = some g ↔
    vars.meets g.condition ∧
      ∃ before after, gotos = before ++ g :: after ∧ ∀ b ∈ before, ¬vars.meets b.condition := by
  simp [openGoto?, List.find?_eq_some_iff_append]

theorem openGoto?_eq_none_iff {gotos : List Goto} : openGoto? gotos vars = none ↔
    ∀ g ∈ gotos, ¬vars.meets g.condition := by
  simp [openGoto?]

/-- The goto that a node is left by. -/
def leadingGoto? (c : Conversation) (vars : Variables) (node : Node) : Option Goto :=
  if c.shownCount node = 0 then openGoto? node.gotos vars else none

theorem leadingGoto?_eq_none_iff {node : Node} : c.leadingGoto? vars node = none ↔
    (c.shownCount node = 0 → ∀ g ∈ node.gotos, ¬vars.meets g.condition) := by
  unfold leadingGoto?
  split
  · next hshown => simp [hshown, openGoto?_eq_none_iff]
  · next hshown => simp [hshown]

theorem course_of_leadingGoto? {node : Node} {g : Goto} (h : c.leadingGoto? vars node = some g) :
    c.course vars node = .go (c.land? g.target) := by
  unfold leadingGoto? at h
  simp only [course, h]

theorem course_of_leadingGoto?_eq_none {node : Node} (h : c.leadingGoto? vars node = none) :
    c.course vars node =
      if c.shownCount node ≤ node.fallthroughNum then .go (node.fallthrough.bind c.land?) else .stay := by
  unfold leadingGoto? at h
  simp only [course, h]

theorem course_eq_go_iff {node : Node} {next : Option Nat} :
    c.course vars node = .go next ↔ c.Leads vars node next := by
  constructor
  · intro h
    cases hlead : c.leadingGoto? vars node with
    | some g =>
        rw [course_of_leadingGoto? hlead] at h
        cases h
        unfold leadingGoto? at hlead
        split at hlead
        · next hshown =>
          obtain ⟨hopen, before, after, hgotos, hbefore⟩ := openGoto?_eq_some_iff.1 hlead
          exact .goto hshown hgotos hbefore hopen (c.lands_land? g.target)
        · cases hlead
    | none =>
        rw [course_of_leadingGoto?_eq_none hlead] at h
        have hclosed := leadingGoto?_eq_none_iff.1 hlead
        split at h
        · next hfew =>
          cases h
          cases htarget : node.fallthrough with
          | none => exact .nowhere hclosed hfew htarget
          | some target => exact .fallthrough hclosed hfew htarget (c.lands_land? target)
        · cases h
  · intro h
    cases h with
    | goto hshown hgotos hbefore hopen hlands =>
        have hlead := openGoto?_eq_some_iff.2 ⟨hopen, _, _, hgotos, hbefore⟩
        rw [course_of_leadingGoto? (by rw [leadingGoto?, if_pos hshown, hlead]), hlands.eq_land?]
    | fallthrough hclosed hfew htarget hlands =>
        rw [course_of_leadingGoto?_eq_none (leadingGoto?_eq_none_iff.2 hclosed), if_pos hfew, htarget,
          Option.bind_some, hlands.eq_land?]
    | nowhere hclosed hfew htarget =>
        rw [course_of_leadingGoto?_eq_none (leadingGoto?_eq_none_iff.2 hclosed), if_pos hfew, htarget,
          Option.bind_none]

theorem Leads.unique {node : Node} {next next' : Option Nat} (h : c.Leads vars node next)
    (h' : c.Leads vars node next') : next = next' := by
  have hcourse := course_eq_go_iff.2 h
  rw [course_eq_go_iff.2 h'] at hcourse
  cases hcourse
  rfl

theorem Leads.lt {node : Node} {j : Nat} (h : c.Leads vars node (some j)) : j < c.nodes.length := by
  have hlands : ∀ {target}, c.Lands target (some j) → j < c.nodes.length := by
    rintro target (_ | _ | ⟨-, hnode, -, -⟩)
    exact (List.getElem?_eq_some_iff.1 hnode).1
  cases h with
  | goto _ _ _ _ h => exact hlands h
  | fallthrough _ _ _ h => exact hlands h

theorem course_eq_stay_iff {node : Node} :
    c.course vars node = .stay ↔ ∀ next, ¬c.Leads vars node next := by
  constructor
  · intro h next hleads
    rw [course_eq_go_iff.2 hleads] at h
    cases h
  · intro h
    cases hcourse : c.course vars node with
    | stay => rfl
    | go next => exact absurd (course_eq_go_iff.1 hcourse) (h next)

/-! ### Following the leads -/

/-- From a node the conversation goes on to another. -/
def Hops (c : Conversation) (vars : Variables) (i j : Nat) : Prop :=
  ∃ node, c.nodes[i]? = some node ∧ c.Leads vars node (some j)

def EndsAt (c : Conversation) (vars : Variables) (i : Nat) : Prop :=
  ∃ node, c.nodes[i]? = some node ∧ c.Leads vars node none

def StaysAt (c : Conversation) (vars : Variables) (i : Nat) : Prop :=
  ∃ node, c.nodes[i]? = some node ∧ ∀ next, ¬c.Leads vars node next

/-- The leads go on from every node that they come to. -/
def Circles (c : Conversation) (vars : Variables) (i : Nat) : Prop :=
  ∀ j, Relation.ReflTransGen (c.Hops vars) i j → ∃ k, c.Hops vars j k

theorem Hops.lt {i j : Nat} (h : c.Hops vars i j) : i < c.nodes.length := by
  obtain ⟨node, hnode, -⟩ := h
  exact (List.getElem?_eq_some_iff.1 hnode).1

theorem Hops.unique {i j k : Nat} (h : c.Hops vars i j) (h' : c.Hops vars i k) : j = k := by
  obtain ⟨node, hnode, hleads⟩ := h
  obtain ⟨node', hnode', hleads'⟩ := h'
  cases hnode.symm.trans hnode'
  exact Option.some.inj (hleads.unique hleads')

theorem EndsAt.not_hops {i j : Nat} (h : c.EndsAt vars i) : ¬c.Hops vars i j := by
  rintro ⟨node, hnode, hleads⟩
  obtain ⟨node', hnode', hends⟩ := h
  cases hnode.symm.trans hnode'
  cases hleads.unique hends

theorem StaysAt.not_hops {i j : Nat} (h : c.StaysAt vars i) : ¬c.Hops vars i j := by
  rintro ⟨node, hnode, hleads⟩
  obtain ⟨node', hnode', hstays⟩ := h
  cases hnode.symm.trans hnode'
  exact hstays _ hleads

theorem StaysAt.not_endsAt {i : Nat} (h : c.StaysAt vars i) : ¬c.EndsAt vars i := by
  rintro ⟨node, hnode, hends⟩
  obtain ⟨node', hnode', hstays⟩ := h
  cases hnode.symm.trans hnode'
  exact hstays _ hends

/-- The leads come to no more than one node from which they do not go on. -/
theorem eq_of_reaches {i j k : Nat} (hj : Relation.ReflTransGen (c.Hops vars) i j)
    (hk : Relation.ReflTransGen (c.Hops vars) i k) (hjstop : ∀ next, ¬c.Hops vars j next)
    (hkstop : ∀ next, ¬c.Hops vars k next) : j = k := by
  have hunique : Relator.RightUnique (c.Hops vars) := fun _ _ _ h h' => h.unique h'
  rcases Relation.ReflTransGen.total_of_right_unique hunique hj hk with hjk | hkj
  · rcases hjk.cases_head with heq | ⟨next, hnext, -⟩
    · exact heq
    · exact absurd hnext (hjstop next)
  · rcases hkj.cases_head with heq | ⟨next, hnext, -⟩
    · exact heq.symm
    · exact absurd hnext (hkstop next)

/-! ### The bound on the visits -/

/-- Leads that come to one node twice come to no other nodes than those in between. -/
theorem circles_of_repeat {f : Nat → Nat} {a b n : Nat} (hab : a < b) (hb : b ≤ n) (heq : f a = f b)
    (hops : ∀ k < n, c.Hops vars (f k) (f (k + 1))) : c.Circles vars (f 0) := by
  intro j hj
  have hseen : ∃ k < b, f k = j := by
    induction hj with
    | refl => exact ⟨0, Nat.zero_lt_of_lt hab, rfl⟩
    | tail _ hhop ih =>
        obtain ⟨k, hk, rfl⟩ := ih
        have hnext := (hops k (hk.trans_le hb)).unique hhop
        rcases Nat.lt_or_ge (k + 1) b with hlt | hge
        · exact ⟨k + 1, hlt, hnext⟩
        · have hlast : k + 1 = b := Nat.le_antisymm hk hge
          exact ⟨a, hab, by rw [heq, ← hlast, hnext]⟩
  obtain ⟨k, hk, rfl⟩ := hseen
  exact ⟨f (k + 1), hops k (hk.trans_le hb)⟩

/-- So many leads in a row that a node must come up twice. -/
theorem circles_of_long {f : Nat → Nat} (hops : ∀ k < c.nodes.length + 1, c.Hops vars (f k) (f (k + 1))) :
    c.Circles vars (f 0) := by
  let visit : Fin (c.nodes.length + 1) → Fin c.nodes.length := fun k => ⟨f k, (hops k k.isLt).lt⟩
  obtain ⟨a, b, hne, heq⟩ := Fintype.exists_ne_map_eq_of_card_lt visit (by simp)
  have hf : f a = f b := congrArg Fin.val heq
  rcases Nat.lt_or_gt_of_ne (Fin.val_ne_of_ne hne) with hlt | hgt
  · exact circles_of_repeat hlt b.isLt.le hf hops
  · exact circles_of_repeat hgt a.isLt.le hf.symm hops

theorem settleWithin_of_stay {visits i : Nat} {node : Node} (hnode : c.nodes[i]? = some node)
    (hcourse : c.course vars node = .stay) : c.settleWithin vars (visits + 1) (some i) = some i := by
  simp only [settleWithin, hnode, hcourse]

theorem settleWithin_of_go {visits i : Nat} {node : Node} {next : Option Nat} (hnode : c.nodes[i]? = some node)
    (hcourse : c.course vars node = .go next) :
    c.settleWithin vars (visits + 1) (some i) = c.settleWithin vars visits next := by
  simp only [settleWithin, hnode, hcourse]

theorem reaches_of_settleWithin {visits i j : Nat} (h : c.settleWithin vars visits (some i) = some j) :
    Relation.ReflTransGen (c.Hops vars) i j ∧ c.StaysAt vars j := by
  induction visits generalizing i with
  | zero => cases h
  | succ visits ih =>
      cases hnode : c.nodes[i]? with
      | none => simp [settleWithin, hnode] at h
      | some node =>
          cases hcourse : c.course vars node with
          | stay =>
              rw [settleWithin_of_stay hnode hcourse] at h
              cases h
              exact ⟨.refl, node, hnode, course_eq_stay_iff.1 hcourse⟩
          | go next =>
              rw [settleWithin_of_go hnode hcourse] at h
              cases next with
              | none => cases visits <;> cases h
              | some k =>
                  obtain ⟨hreach, hstays⟩ := ih h
                  exact ⟨.head ⟨node, hnode, course_eq_go_iff.1 hcourse⟩ hreach, hstays⟩

/-- The leads end the conversation, or there are as many of them as the visits allow. -/
theorem ends_of_settleWithin {visits i : Nat} (hi : i < c.nodes.length)
    (h : c.settleWithin vars visits (some i) = none) :
    (∃ j, Relation.ReflTransGen (c.Hops vars) i j ∧ c.EndsAt vars j) ∨
      ∃ f : Nat → Nat, f 0 = i ∧ ∀ k < visits, c.Hops vars (f k) (f (k + 1)) := by
  induction visits generalizing i with
  | zero => exact .inr ⟨fun _ => i, rfl, fun k hk => absurd hk (Nat.not_lt_zero k)⟩
  | succ visits ih =>
      have hnode := List.getElem?_eq_getElem hi
      cases hcourse : c.course vars c.nodes[i] with
      | stay =>
          rw [settleWithin_of_stay hnode hcourse] at h
          cases h
      | go next =>
          have hleads := course_eq_go_iff.1 hcourse
          rw [settleWithin_of_go hnode hcourse] at h
          cases next with
          | none => exact .inl ⟨i, .refl, _, hnode, hleads⟩
          | some next =>
              have hhop : c.Hops vars i next := ⟨_, hnode, hleads⟩
              rcases ih hleads.lt h with ⟨j, hreach, hends⟩ | ⟨f, rfl, hops⟩
              · exact .inl ⟨j, .head hhop hreach, hends⟩
              · refine .inr ⟨fun k => if k = 0 then i else f (k - 1), rfl, fun k hk => ?_⟩
                cases k with
                | zero => exact hhop
                | succ k => exact hops k (Nat.lt_of_succ_lt_succ hk)

/-! ### Settling -/

/-- Where the conversation stands makes no difference to the nodes that follow. -/
theorem settleWithin_current (c : Conversation) (current : Option Nat) (vars : Variables) (visits : Nat)
    (start : Option Nat) :
    { c with current }.settleWithin vars visits start = c.settleWithin vars visits start := by
  induction visits generalizing start with
  | zero => cases start <;> rfl
  | succ visits ih =>
      cases start with
      | none => rfl
      | some i =>
          cases hnode : c.nodes[i]? with
          | none => simp only [settleWithin, hnode]
          | some node =>
              cases hcourse : c.course vars node with
              | stay =>
                  rw [settleWithin_of_stay hnode hcourse,
                    settleWithin_of_stay (c := { c with current }) hnode hcourse]
              | go next =>
                  rw [settleWithin_of_go hnode hcourse,
                    settleWithin_of_go (c := { c with current }) hnode hcourse, ih]

/-- A conversation settles at the node that its leads come to and that keeps it. It ends if the leads come to
a node that ends it, or to no node at which they stop. -/
theorem current_settle_iff (c : Conversation) (vars : Variables) (i : Fin c.nodes.length) :
    let settled := { c with current := some i.val }.settle vars
    (∀ j, settled.current = some j ↔ Relation.ReflTransGen (c.Hops vars) i j ∧ c.StaysAt vars j) ∧
      (settled.current = none ↔
        (∃ j, Relation.ReflTransGen (c.Hops vars) i j ∧ c.EndsAt vars j) ∨ c.Circles vars i) := by
  intro settled
  have hcurrent : settled.current = c.settleWithin vars (c.nodes.length + 1) (some i.val) :=
    c.settleWithin_current (some i.val) vars _ _
  have hstays : ∀ j, settled.current = some j →
      Relation.ReflTransGen (c.Hops vars) i j ∧ c.StaysAt vars j :=
    fun j h => reaches_of_settleWithin (hcurrent.symm.trans h)
  have hends : settled.current = none →
      (∃ j, Relation.ReflTransGen (c.Hops vars) i j ∧ c.EndsAt vars j) ∨ c.Circles vars i := by
    intro h
    rcases ends_of_settleWithin i.isLt (hcurrent.symm.trans h) with hends | ⟨f, hf, hops⟩
    · exact .inl hends
    · exact .inr (hf ▸ circles_of_long hops)
  -- No two of the three ways to go on are open together, for every node has one lead at most.
  have hexcludes : ∀ {j}, Relation.ReflTransGen (c.Hops vars) i j → c.StaysAt vars j →
      ¬((∃ k, Relation.ReflTransGen (c.Hops vars) i k ∧ c.EndsAt vars k) ∨ c.Circles vars i) := by
    rintro j hreach hstay (⟨k, hk, hend⟩ | hcircles)
    · have heq := eq_of_reaches hreach hk (fun _ => hstay.not_hops) fun _ => hend.not_hops
      exact hstay.not_endsAt (heq ▸ hend)
    · obtain ⟨next, hnext⟩ := hcircles j hreach
      exact hstay.not_hops hnext
  refine ⟨fun j => ⟨hstays j, ?_⟩, hends, ?_⟩
  · rintro ⟨hreach, hstay⟩
    cases h : settled.current with
    | none => exact absurd (hends h) (hexcludes hreach hstay)
    | some k =>
        obtain ⟨hreach', hstay'⟩ := hstays k h
        rw [eq_of_reaches hreach hreach' (fun _ => hstay.not_hops) fun _ => hstay'.not_hops]
  · intro h
    cases hsome : settled.current with
    | none => rfl
    | some j =>
        obtain ⟨hreach, hstay⟩ := hstays j hsome
        exact absurd h (hexcludes hreach hstay)

end Adventure.Conversation
