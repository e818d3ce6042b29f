import Adventure.Proofs.Conversation
import Adventure.Proofs.Conversation.Settle
/-! What is offered. A conversation that has settled has ended, or it shows more entries than its node falls
through with. The variables no longer matter then: it stays where it is, whatever they become, and never
runs into a dead end. -/
namespace Adventure.Conversation

/-- The conversation offers the lines and stays as it is. -/
structure Steady (c : Conversation) (lines : List DialogueLine) : Prop where
  /-- It has ended, or there is a line for each of the entries that the current node shows, which are more
  than it falls through with. -/
  ended_or_shows : c.current = none ∧ lines = [] ∨ lines ≠ [] ∧ ∃ node, c.currentNode? = some node ∧
    node.fallthroughNum < c.shownCount node ∧ lines.length = c.shownCount node
  again : ∀ vars, c.currentLines vars = (lines, c)

variable {c : Conversation} {vars : Variables}

/-! ### What keeps a conversation -/

/-- A node keeps the conversation just if it shows more entries than it falls through with. Its gotos are
not asked then. -/
theorem course_eq_stay_iff_lt (vars : Variables) {node : Node} :
    c.course vars node = .stay ↔ node.fallthroughNum < c.shownCount node := by
  cases hlead : c.leadingGoto? vars node with
  | some g =>
      have hshown : c.shownCount node = 0 := by
        by_contra hne
        rw [leadingGoto?, if_neg hne] at hlead
        cases hlead
      rw [course_of_leadingGoto? hlead, hshown]
      exact iff_of_false (by rintro ⟨⟩) (Nat.not_lt_zero _)
  | none =>
      rw [course_of_leadingGoto?_eq_none hlead, ← Nat.not_le]
      split
      · next hfew => exact iff_of_false (by rintro ⟨⟩) (not_not_intro hfew)
      · next hmore => exact iff_of_true rfl hmore

theorem currentNode?_of_current {i : Nat} (h : c.current = some i) : c.currentNode? = c.nodes[i]? := by
  rw [currentNode?, h, Option.bind_some]

theorem settle_of_ended (h : c.current = none) : c.settle vars = c := by
  cases c
  cases h
  rfl

theorem settle_of_shows {i : Nat} {node : Node} (hcurrent : c.current = some i) (hnode : c.nodes[i]? = some node)
    (hmore : node.fallthroughNum < c.shownCount node) : c.settle vars = c := by
  have hstay : c.settleWithin vars (c.nodes.length + 1) (some i) = some i :=
    settleWithin_of_stay hnode ((course_eq_stay_iff_lt vars).2 hmore)
  rw [settle, hcurrent, hstay, ← hcurrent]

theorem shows_of_settle {i : Nat} (h : (c.settle vars).current = some i) :
    ∃ node, c.nodes[i]? = some node ∧ node.fallthroughNum < c.shownCount node := by
  cases hcurrent : c.current with
  | none =>
      rw [settle_of_ended hcurrent, hcurrent] at h
      cases h
  | some start =>
      have hsettle : c.settleWithin vars (c.nodes.length + 1) (some start) = some i := hcurrent ▸ h
      obtain ⟨-, node, hnode, hstays⟩ := reaches_of_settleWithin hsettle
      exact ⟨node, hnode, (course_eq_stay_iff_lt vars).1 (course_eq_stay_iff.2 hstays)⟩

/-! ### Lines -/

/-- The entries that are offered. -/
def offeredAt (c : Conversation) : List Nat :=
  (c.currentNode?.elim [] Node.entries).filter c.isShownAt

/-- What is said to pick an entry. -/
def promptAt? (c : Conversation) (i : Nat) : Option DialogueLine :=
  (c.entryAt? i).map fun e => ⟨e.name, 0, e.text⟩

theorem offered_eq (c : Conversation) : c.offered = c.offeredAt.filterMap c.promptAt? := by
  unfold offered offeredAt promptAt?
  cases c.currentNode? with
  | none => rfl
  | some node =>
      dsimp only
      rw [Option.elim_some, List.filterMap_filterMap, List.filterMap_filter]
      refine List.filterMap_congr fun i _ => ?_
      cases hentry : c.entryAt? i with
      | none => simp
      | some e => simp [isShownAt, hentry]

/-- There is a line for each entry that is shown. -/
theorem length_offered {node : Node} (h : c.currentNode? = some node) : c.offered.length = c.shownCount node := by
  have hshown : ∀ i ∈ c.offeredAt, (c.promptAt? i).isSome = true := by
    intro i hi
    obtain ⟨e, he, -⟩ := (Option.any_eq_true _ _).1 (List.mem_filter.1 hi).2
    rw [promptAt?, he]
    rfl
  rw [offered_eq, List.length_filterMap_eq_countP, List.countP_eq_length.2 hshown, offeredAt, h, shownCount]
  rfl

theorem steady_of_settled (hstands : ∀ i, c.current = some i →
    ∃ node, c.nodes[i]? = some node ∧ node.fallthroughNum < c.shownCount node) : c.Steady c.offered := by
  have hagain : ∀ vars, c.settle vars = c → c.currentLines vars = (c.offered, c) := by
    intro vars hsettle
    rw [currentLines, hsettle]
  cases hcurrent : c.current with
  | none =>
      refine ⟨.inl ⟨hcurrent, ?_⟩, fun vars => hagain vars (settle_of_ended hcurrent)⟩
      simp [offered, currentNode?, hcurrent]
  | some i =>
      obtain ⟨node, hnode, hmore⟩ := hstands i hcurrent
      have hcurrentNode := (currentNode?_of_current hcurrent).trans hnode
      have hlength := length_offered hcurrentNode
      have hne : c.offered ≠ [] := List.length_pos_iff.1 (hlength ▸ Nat.zero_lt_of_lt hmore)
      exact ⟨.inr ⟨hne, node, hcurrentNode, hmore, hlength⟩,
        fun vars => hagain vars (settle_of_shows hcurrent hnode hmore)⟩

theorem steady_settle (c : Conversation) (vars : Variables) : (c.settle vars).Steady (c.settle vars).offered :=
  steady_of_settled fun _ h => shows_of_settle (c := c) h

/-- After its lines were asked for, and after a pick that was accepted, a conversation is steady. Nothing is
assumed of the state that it was in before. -/
theorem steady_currentLines_pick (c : Conversation) (name : String) (vars : Variables) :
    (c.currentLines vars).2.Steady (c.currentLines vars).1 ∧
      ((c.pick name vars).accepted = true → ∃ lines, (c.pick name vars).conversation.Steady lines) := by
  refine ⟨c.steady_settle vars, fun haccepted => ?_⟩
  unfold pick at haccepted ⊢
  dsimp only at haccepted ⊢
  split
  · next hnone =>
    rw [hnone] at haccepted
    cases haccepted
  · exact ⟨_, steady_settle _ _⟩

/-- Two nodes. What the first one offers does not outlast a pick. -/
def cellar : List UInt8 :=
  "Node a\nFallthrough 1 b\nEntry x\nDestroy y\nEntry y\nNode b\nEntry z\nUnhide y\nGoto a\nEntry w\n".toUTF8.toList

theorem steady_currentLines_pick_cellar :
    ∃ c, parse "cellar" (.ofBytes "cellar.cnv" cellar) = .ok c ∧ (c.pick "x" .empty).accepted = true ∧
      ∃ lines, (c.pick "x" .empty).conversation.Steady lines := by
  have hplayed : (parse "cellar" (.ofBytes "cellar.cnv" cellar)).toOption.any (fun c =>
      (c.pick "x" .empty).accepted) = true := by
    decide +kernel
  obtain ⟨c, hparse, haccepted⟩ := exists_parse_of_any hplayed
  exact ⟨c, hparse, haccepted, (steady_currentLines_pick c "x" .empty).2 haccepted⟩

end Adventure.Conversation
