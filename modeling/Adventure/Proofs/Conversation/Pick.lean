import Mathlib.Tactic.ByContra
import Adventure.Conversation.Parse
import Adventure.Conversation.Play
/-! What can be picked of what is offered. All shown entries of the current node are offered, but a name
picks the first entry of the node that has it, shown or not: behind a hidden entry a shown one of the same
name is out of reach. -/
namespace Adventure.Conversation

/-! ### Entries of a name -/

/-- The first entry of a name in the current node. -/
structure First (c : Conversation) (name : String) (node : Node) (before : List Nat) (index : Nat)
    (after : List Nat) (e : Entry) : Prop where
  current : c.currentNode? = some node
  entries : node.entries = before ++ index :: after
  entry : c.entryAt? index = some e
  named : Text.same e.name name
  first : ∀ i ∈ before, ¬c.isNamed name i

/-- The entry that a name picks. -/
def Picks (c : Conversation) (name : String) (index : Nat) (e : Entry) : Prop :=
  (∃ node before after, c.First name node before index after e) ∧ e.isShown

/-- The first entry of the name in the current node is hidden, but a later one is shown. -/
def Shadows (c : Conversation) (name : String) : Prop :=
  ∃ node before index after e, c.First name node before index after e ∧ ¬e.isShown ∧
    ∃ i ∈ after, c.isNamed name i ∧ c.isShownAt i

/-- A line is offered under the name. -/
def Offers (c : Conversation) (name : String) : Prop :=
  ∃ line ∈ c.offered, Text.same line.entry name

variable {c : Conversation} {name : String} {i j : Nat} {e f : Entry} {vars : Variables}

theorem isNamed_of_entryAt? (h : c.entryAt? i = some e) : c.isNamed name i = Text.same e.name name := by
  rw [isNamed, h, Option.any_some]

theorem isShownAt_of_entryAt? (h : c.entryAt? i = some e) : c.isShownAt i = e.isShown := by
  rw [isShownAt, h, Option.any_some]

theorem exists_entryAt?_of_isNamed (h : c.isNamed name i = true) :
    ∃ e, c.entryAt? i = some e ∧ Text.same e.name name :=
  (Option.any_eq_true _ _).1 h

theorem First.find?_eq {node : Node} {before after : List Nat} (h : c.First name node before i after e) :
    node.entries.find? (c.isNamed name) = some i := by
  have hnamed : c.isNamed name i = true := by rw [isNamed_of_entryAt? h.entry, h.named]
  exact List.find?_eq_some_iff_append.2 ⟨hnamed, before, after, h.entries, fun j hj => by simpa using h.first j hj⟩

theorem First.unique {node node' : Node} {before before' after after' : List Nat}
    (h : c.First name node before i after e) (h' : c.First name node' before' j after' f) : i = j ∧ e = f := by
  obtain rfl : node = node' := Option.some.inj (h.current.symm.trans h'.current)
  obtain rfl : i = j := Option.some.inj (h.find?_eq.symm.trans h'.find?_eq)
  exact ⟨rfl, Option.some.inj (h.entry.symm.trans h'.entry)⟩

theorem Picks.unique (h : c.Picks name i e) (h' : c.Picks name j f) : i = j ∧ e = f := by
  obtain ⟨⟨_, _, _, h⟩, -⟩ := h
  obtain ⟨⟨_, _, _, h'⟩, -⟩ := h'
  exact h.unique h'

/-- A name that some entry of the current node has belongs to a first one. -/
theorem exists_first {node : Node} (hnode : c.currentNode? = some node) (hi : i ∈ node.entries)
    (hnamed : c.isNamed name i = true) : ∃ before index after e, c.First name node before index after e := by
  cases hfind : node.entries.find? (c.isNamed name) with
  | none => exact absurd hnamed (List.find?_eq_none.1 hfind i hi)
  | some index =>
      obtain ⟨hindex, before, after, hentries, hbefore⟩ := List.find?_eq_some_iff_append.1 hfind
      obtain ⟨e, he, hname⟩ := exists_entryAt?_of_isNamed hindex
      exact ⟨before, index, after, e, hnode, hentries, he, hname, fun j hj => by simpa using hbefore j hj⟩

/-! ### Offering -/

theorem mem_offered_iff {line : DialogueLine} : line ∈ c.offered ↔
    ∃ node, c.currentNode? = some node ∧ ∃ i ∈ node.entries, ∃ e, c.entryAt? i = some e ∧
      e.isShown ∧ line = ⟨e.name, 0, e.text⟩ := by
  unfold offered
  cases hnode : c.currentNode? with
  | none => simp
  | some node =>
      simp only [List.mem_filterMap, Option.some.injEq, exists_eq_left']
      constructor
      · rintro ⟨e, ⟨i, hi, he⟩, hline⟩
        split at hline
        · next hshown => exact ⟨i, hi, e, he, hshown, (Option.some.inj hline).symm⟩
        · cases hline
      · rintro ⟨i, hi, e, he, hshown, rfl⟩
        exact ⟨e, ⟨i, hi, he⟩, if_pos hshown⟩

theorem offers_iff : c.Offers name ↔ ∃ node, c.currentNode? = some node ∧
    ∃ i ∈ node.entries, c.isNamed name i ∧ c.isShownAt i := by
  constructor
  · rintro ⟨line, hline, hname⟩
    obtain ⟨node, hnode, i, hi, e, he, hshown, rfl⟩ := mem_offered_iff.1 hline
    exact ⟨node, hnode, i, hi, by rwa [isNamed_of_entryAt? he], by rwa [isShownAt_of_entryAt? he]⟩
  · rintro ⟨node, hnode, i, hi, hnamed, hshown⟩
    obtain ⟨e, he, hname⟩ := exists_entryAt?_of_isNamed hnamed
    rw [isShownAt_of_entryAt? he] at hshown
    exact ⟨_, mem_offered_iff.2 ⟨node, hnode, i, hi, e, he, hshown, rfl⟩, hname⟩

theorem Picks.offers (h : c.Picks name i e) : c.Offers name := by
  obtain ⟨⟨node, before, after, h⟩, hshown⟩ := h
  refine offers_iff.2 ⟨node, h.current, i, by simp [h.entries], ?_, ?_⟩
  · rw [isNamed_of_entryAt? h.entry, h.named]
  · rwa [isShownAt_of_entryAt? h.entry]

theorem Shadows.offers (h : c.Shadows name) : c.Offers name := by
  obtain ⟨node, before, index, after, e, h, -, i, hi, hnamed, hshown⟩ := h
  exact offers_iff.2 ⟨node, h.current, i, by simp [h.entries, hi], hnamed, hshown⟩

theorem Picks.not_shadows (h : c.Picks name i e) : ¬c.Shadows name := by
  obtain ⟨⟨_, _, _, h⟩, hshown⟩ := h
  rintro ⟨_, _, _, _, f, h', hhidden, -⟩
  exact hhidden ((h.unique h').2 ▸ hshown)

/-- What is offered can be picked or is shadowed. -/
theorem Offers.picks_or_shadows (h : c.Offers name) : (∃ i e, c.Picks name i e) ∨ c.Shadows name := by
  obtain ⟨node, hnode, i, hi, hnamed, hshown⟩ := offers_iff.1 h
  obtain ⟨before, index, after, e, hfirst⟩ := exists_first hnode hi hnamed
  by_cases he : e.isShown
  · exact .inl ⟨index, e, ⟨node, before, after, hfirst⟩, he⟩
  · refine .inr ⟨node, before, index, after, e, hfirst, he, i, ?_, hnamed, hshown⟩
    rw [hfirst.entries, List.mem_append, List.mem_cons] at hi
    rcases hi with hi | rfl | hi
    · exact absurd hnamed (hfirst.first i hi)
    · exact absurd (isShownAt_of_entryAt? hfirst.entry ▸ hshown) he
    · exact hi

/-! ### Picking -/

theorem First.selected? {node : Node} {before after : List Nat} (h : c.First name node before i after e) :
    c.selected? node name = if e.isShown then some i else none := by
  rw [Conversation.selected?, h.find?_eq, Option.filter_some, isShownAt_of_entryAt? h.entry]

/-- The entry that is picked has its effects, and its gotos are followed. -/
theorem pick_of_picks (h : c.Picks name i e) (vars : Variables) :
    let vars' := e.changes.foldl Variables.change vars
    ∃ node, c.currentNode? = some node ∧
      c.pick name vars = ⟨true, ((c.applyEntry node i e).follow e.gotos vars').settle vars', vars'⟩ := by
  intro vars'
  obtain ⟨⟨node, before, after, h⟩, hshown⟩ := h
  refine ⟨node, h.current, ?_⟩
  have hselected : c.selected? node name = some i := by rw [h.selected?, if_pos hshown]
  simp only [pick, h.current, Option.bind_eq_bind, Option.bind_some, hselected, h.entry, Option.pure_def]
  rfl

/-- The entry that a name picks, as it is looked up. -/
def picked? (c : Conversation) (name : String) : Option Entry := do
  let node ← c.currentNode?
  let i ← c.selected? node name
  c.entryAt? i

theorem Picks.picked?_eq (h : c.Picks name i e) : c.picked? name = some e := by
  obtain ⟨⟨node, before, after, h⟩, hshown⟩ := h
  simp [picked?, h.current, h.selected?, hshown, h.entry]

theorem pick_of_not_picks (h : ∀ i e, ¬c.Picks name i e) (vars : Variables) :
    c.pick name vars = ⟨false, c, vars⟩ := by
  have hselected : ∀ node, c.currentNode? = some node → c.selected? node name = none := by
    intro node hnode
    cases hsel : c.selected? node name with
    | none => rfl
    | some i =>
        obtain ⟨hfind, hshown⟩ := Option.filter_eq_some_iff.1 hsel
        obtain ⟨before, index, after, e, hfirst⟩ :=
          exists_first hnode (List.mem_of_find?_eq_some hfind) (List.find?_some hfind)
        have heq := hfirst.selected?
        rw [hsel] at heq
        split at heq
        · next he => exact absurd ⟨⟨node, before, after, hfirst⟩, he⟩ (h index e)
        · cases heq
  cases hnode : c.currentNode? with
  | none => simp [pick, hnode]
  | some node => simp [pick, hnode, hselected node hnode]

theorem accepted_pick_iff (vars : Variables) : (c.pick name vars).accepted = true ↔ ∃ i e, c.Picks name i e := by
  constructor
  · intro haccepted
    by_contra hnone
    rw [pick_of_not_picks fun i e h => hnone ⟨i, e, h⟩] at haccepted
    cases haccepted
  · rintro ⟨i, e, h⟩
    obtain ⟨node, -, heq⟩ := pick_of_picks h vars
    rw [heq]

/-- After the lines were offered, a name is accepted just if a line is offered under it. -/
def AcceptsOffered (c : Conversation) (vars : Variables) (name : String) : Prop :=
  ((c.currentLines vars).2.pick name vars).accepted = true ↔
    ∃ line ∈ (c.currentLines vars).1, Text.same line.entry name

instance (c : Conversation) (vars : Variables) (name : String) : Decidable (c.AcceptsOffered vars name) :=
  inferInstanceAs (Decidable (_ ↔ _))

/-- What is offered is what is accepted, unless an entry of the name is shadowed. What is refused changes
nothing. -/
theorem acceptsOffered_iff (c : Conversation) (vars : Variables) (name : String) :
    let offering := (c.currentLines vars).2
    let picked := offering.pick name vars
    (c.AcceptsOffered vars name ↔ ¬offering.Shadows name) ∧
      (picked.accepted = false → picked.conversation = offering ∧ picked.vars = vars) := by
  intro offering picked
  constructor
  · have hoffers : (∃ line ∈ (c.currentLines vars).1, Text.same line.entry name) ↔ offering.Offers name := .rfl
    rw [AcceptsOffered, hoffers, accepted_pick_iff]
    constructor
    · intro haccepts hshadows
      obtain ⟨i, e, hpicks⟩ := haccepts.2 hshadows.offers
      exact hpicks.not_shadows hshadows
    · intro hclear
      exact ⟨fun ⟨_, _, hpicks⟩ => hpicks.offers, fun hoffers => hoffers.picks_or_shadows.resolve_right hclear⟩
  · intro hrefused
    have hnone : ∀ i e, ¬offering.Picks name i e := fun i e hpicks =>
      Bool.false_ne_true (hrefused.symm.trans ((accepted_pick_iff vars).2 ⟨i, e, hpicks⟩))
    have heq : picked = ⟨false, offering, vars⟩ := pick_of_not_picks hnone vars
    rw [heq]
    exact ⟨rfl, rfl⟩

/-- A node with two entries of one name. -/
def twins : List UInt8 :=
  "Node a\nEntry x\nText First.\nEntry x\nText Second.\n".toUTF8.toList

/-- Once the first entry was picked, the second one is offered but not accepted. -/
theorem twins_not_acceptsOffered :
    ∃ c, parse "twins" (.ofBytes "twins.cnv" twins) = .ok c ∧
      ¬((c.currentLines .empty).2.pick "x" .empty).conversation.AcceptsOffered .empty "x" := by
  have hplayed : (parse "twins" (.ofBytes "twins.cnv" twins)).toOption.any (fun c =>
      !((c.currentLines .empty).2.pick "x" .empty).conversation.AcceptsOffered .empty "x") = true := by
    decide +kernel
  cases hc : parse "twins" (.ofBytes "twins.cnv" twins) with
  | error e =>
      rw [hc] at hplayed
      cases hplayed
  | ok c =>
      rw [hc] at hplayed
      exact ⟨c, rfl, by simpa [Except.toOption] using hplayed⟩

end Adventure.Conversation
