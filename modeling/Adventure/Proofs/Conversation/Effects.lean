import Adventure.Proofs.Conversation.Acts
import Adventure.Proofs.Conversation.Steady
/-! What a pick does. Its marks are on the entries and its changes are made before a goto is asked or the
conversation moves on. An entry that was destroyed is out of the play, whatever unhides it later. -/
namespace Adventure.Conversation

/-- Where gotos lead: to the landing of the first that is open, and if none is, nowhere else. -/
inductive Heads (c : Conversation) (vars : Variables) (gotos : List Goto) : Option Nat → Prop where
  | goto {before after : List Goto} {g : Goto} {next : Option Nat} (hgotos : gotos = before ++ g :: after)
      (hbefore : ∀ b ∈ before, ¬vars.meets b.condition) (hopen : vars.meets g.condition)
      (hlands : c.Lands g.target next) : Heads c vars gotos next
  | stay (hclosed : ∀ g ∈ gotos, ¬vars.meets g.condition) : Heads c vars gotos c.current

/-- All that a pick of an entry of the node does. -/
structure Effects (c : Conversation) (node : Node) (index : Nat) (e : Entry) (vars : Variables)
    (picked : Picked) : Prop where
  vars : picked.vars = e.changes.foldl Variables.change vars
  name : picked.conversation.name = c.name
  nodes : picked.conversation.nodes = c.nodes
  marks : ∀ i, picked.conversation.entryAt? i = (c.entryAt? i).map (c.marked node index e i)
  /-- The gotos and the nodes' courses are decided by the flags and the variables afterwards. -/
  moves : ∃ next, c.Heads picked.vars e.gotos next ∧
    picked.conversation = { picked.conversation with current := next }.settle picked.vars

variable {c c' : Conversation} {vars : Variables} {gotos : List Goto} {i : Nat}

theorem heads_follow (hnodes : c'.nodes = c.nodes) (hcurrent : c'.current = c.current) :
    c.Heads vars gotos (c'.follow gotos vars).current := by
  unfold follow
  cases hopen : openGoto? gotos vars with
  | some g =>
      obtain ⟨hmeets, before, after, hgotos, hbefore⟩ := openGoto?_eq_some_iff.1 hopen
      have hland : c'.land? g.target = c.land? g.target := by rw [land?, land?, hnodes]
      refine .goto hgotos hbefore hmeets ?_
      dsimp only
      rw [hland]
      exact c.lands_land? g.target
  | none => exact hcurrent ▸ .stay (openGoto?_eq_none_iff.1 hopen)

theorem follow_eq (c : Conversation) (gotos : List Goto) (vars : Variables) :
    c.follow gotos vars = { c with current := (c.follow gotos vars).current } := by
  unfold follow
  split <;> rfl

theorem Picks.effects {name : String} {index : Nat} {e : Entry} (h : c.Picks name index e) (vars : Variables) :
    ∃ node, c.currentNode? = some node ∧ c.Effects node index e vars (c.pick name vars) := by
  obtain ⟨node, hnode, heq⟩ := pick_of_picks h vars
  have happlied := c.applyEntry_eq_entries node index e
  have hname : (c.applyEntry node index e).name = c.name := by rw [happlied]
  have hnodes : (c.applyEntry node index e).nodes = c.nodes := by rw [happlied]
  have hcurrent : (c.applyEntry node index e).current = c.current := by rw [happlied]
  refine ⟨node, hnode, ?_⟩
  rw [heq, follow_eq]
  exact ⟨rfl, hname, hnodes, c.entryAt?_applyEntry node index e, _, heads_follow hnodes hcurrent, rfl⟩

theorem IsDestroyedAt.not_mem_offeredAt (h : c.IsDestroyedAt i) : i ∉ c.offeredAt := by
  intro hmem
  have hshown := (List.mem_filter.1 hmem).2
  rw [h.not_isShownAt] at hshown
  cases hshown

/-- A pick that is accepted does to the conversation and the variables what the entry picked says. An entry
that is destroyed is not offered as long as the conversation goes on. -/
theorem effects_of_pick (c : Conversation) (name : String) (vars : Variables) :
    ((c.pick name vars).accepted = true → ∃ node index e, c.currentNode? = some node ∧ c.Picks name index e ∧
      c.Effects node index e vars (c.pick name vars)) ∧
    ∀ i, c.IsDestroyedAt i → ∀ acts : List Act, (∀ a ∈ acts, a.Plays) → ∀ vars,
      let lined := (c.run acts).currentLines vars
      lined.1 = lined.2.offeredAt.filterMap lined.2.promptAt? ∧ i ∉ lined.2.offeredAt := by
  constructor
  · intro haccepted
    obtain ⟨index, e, hpicks⟩ := (accepted_pick_iff vars).1 haccepted
    obtain ⟨node, hnode, heffects⟩ := hpicks.effects vars
    exact ⟨node, index, e, hnode, hpicks, heffects⟩
  · intro i hdestroyed acts hplays vars lined
    have hlined : lined.2.IsDestroyedAt i := (hdestroyed.run hplays).act (a := .lines vars) trivial
    exact ⟨lined.2.offered_eq, hlined.not_mem_offeredAt⟩

/-- The entry that the first pick destroyed is unhidden by the second one. -/
theorem effects_of_pick_cellar :
    ∃ c, parse "cellar" (.ofBytes "cellar.cnv" cellar) = .ok c ∧
      (∃ node index e, c.Effects node index e .empty (c.pick "x" .empty)) ∧
      let picked := (c.pick "x" .empty).conversation
      picked.IsDestroyedAt 1 ∧ (picked.pick "z" .empty).accepted = true ∧
        1 ∉ ((picked.run [.pick "z" .empty]).currentLines .empty).2.offeredAt := by
  have hplayed : (parse "cellar" (.ofBytes "cellar.cnv" cellar)).toOption.any (fun c =>
      let picked := (c.pick "x" .empty).conversation
      (c.pick "x" .empty).accepted && decide (picked.IsDestroyedAt 1) && (picked.pick "z" .empty).accepted) = true := by
    decide +kernel
  obtain ⟨c, hparse, hc⟩ := exists_parse_of_any hplayed
  simp only [Bool.and_eq_true, decide_eq_true_eq] at hc
  obtain ⟨⟨haccepted, hdestroyed⟩, hunhidden⟩ := hc
  obtain ⟨node, index, e, -, -, heffects⟩ := (effects_of_pick c "x" .empty).1 haccepted
  have hgone := (effects_of_pick (c.pick "x" .empty).conversation "z" .empty).2 1 hdestroyed
    [.pick "z" .empty] (by simp [Act.Plays]) .empty
  exact ⟨c, hparse, ⟨node, index, e, heffects⟩, hdestroyed, hunhidden, hgone.2⟩

end Adventure.Conversation
