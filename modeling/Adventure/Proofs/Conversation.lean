import Adventure.Conversation.Parse
import Adventure.Conversation.Play
import Adventure.Proofs.Variables
/-! Conversations keep their shape while they are played: the nodes stay as they were read, no entry comes
or goes, and the current node is one of the nodes. A snapshot fits every conversation of the same
shape. -/
namespace Adventure.Conversation

/-- The current node exists. -/
def InRange (c : Conversation) : Prop :=
  ∀ i ∈ c.current, i < c.nodes.length

/-- What `c` may become when it is played. -/
structure Continues (c c' : Conversation) : Prop where
  name : c'.name = c.name
  nodes : c'.nodes = c.nodes
  entries : c'.entries.length = c.entries.length
  inRange : c.InRange → c'.InRange

namespace Continues
variable {c c' c'' : Conversation}

theorem refl (c : Conversation) : c.Continues c :=
  ⟨rfl, rfl, rfl, id⟩

theorem trans (h : c.Continues c') (h' : c'.Continues c'') : c.Continues c'' where
  name := h'.name.trans h.name
  nodes := h'.nodes.trans h.nodes
  entries := h'.entries.trans h.entries
  inRange := h'.inRange ∘ h.inRange

theorem current {current : Option Nat} (h : c.InRange → ∀ i ∈ current, i < c.nodes.length) :
    c.Continues { c with current } :=
  ⟨rfl, rfl, rfl, h⟩

end Continues

/-! ### Playing -/

theorem settleWithin_lt {c : Conversation} {vars : Variables} {visits : Nat} {current : Option Nat} {i : Nat}
    (h : c.settleWithin vars visits current = some i) : i < c.nodes.length := by
  induction visits generalizing current with
  | zero => cases current <;> cases h
  | succ visits ih =>
      cases current with
      | none => cases h
      | some index =>
          unfold settleWithin at h
          split at h
          · cases h
          · next hnode =>
            split at h
            · cases h
              exact (List.getElem?_eq_some_iff.1 hnode).1
            · exact ih h

theorem continues_settle (c : Conversation) (vars : Variables) : c.Continues (c.settle vars) :=
  .current fun _ _ hi => settleWithin_lt hi

theorem continues_currentLines (c : Conversation) (vars : Variables) :
    c.Continues (c.currentLines vars).2 :=
  c.continues_settle vars

theorem continues_modify (c : Conversation) (index : Nat) (f : Entry → Entry) :
    c.Continues { c with entries := c.entries.modify index f } :=
  ⟨rfl, rfl, List.length_modify f c.entries index, id⟩

theorem continues_updateNamed (node : Node) (f : Entry → Entry) (c : Conversation) (names : List String) :
    c.Continues (updateNamed node f c names) := by
  induction names generalizing c with
  | nil => exact .refl c
  | cons name names ih =>
      rw [updateNamed, List.foldl_cons]
      split
      · next index _ => exact (c.continues_modify index f).trans (ih _)
      · exact ih c

theorem continues_applyEntry (c : Conversation) (node : Node) (index : Nat) (e : Entry) :
    c.Continues (c.applyEntry node index e) :=
  (c.continues_modify index _).trans <| (continues_updateNamed node _ _ e.hides).trans <|
    (continues_updateNamed node _ _ e.unhides).trans (continues_updateNamed node _ _ e.destroys)

theorem land?_lt {c : Conversation} {target : String} {i : Nat} (h : c.land? target = some i) :
    i < c.nodes.length := by
  unfold land? at h
  split at h
  · cases h
  · exact (List.findIdx?_eq_some_iff_findIdx_eq.1 h).1

theorem continues_follow (c : Conversation) (gotos : List Goto) (vars : Variables) :
    c.Continues (c.follow gotos vars) := by
  unfold follow
  split
  · exact .current fun _ _ hi => land?_lt hi
  · exact .refl c

theorem continues_pick (c : Conversation) (name : String) (vars : Variables) :
    c.Continues (c.pick name vars).conversation := by
  unfold pick
  dsimp only
  split
  · exact .refl c
  · exact (c.continues_applyEntry _ _ _).trans ((continues_follow _ _ _).trans (continues_settle _ _))

theorem sameDeclarations_pick (c : Conversation) (name : String) (vars : Variables) :
    (c.pick name vars).vars.SameDeclarations vars := by
  have hchanges : ∀ (changes : List String) (v : Variables),
      (changes.foldl Variables.change v).SameDeclarations v := by
    intro changes
    induction changes with
    | nil => exact .refl
    | cons text changes ih =>
        intro v
        rw [List.foldl_cons]
        exact (ih (v.change text)).trans (v.sameDeclarations_change text)
  unfold pick
  dsimp only
  split
  · exact .refl vars
  · exact hchanges _ vars

/-! ### Texts -/

theorem parse_ok {name : String} {r : Text.Reader} {c : Conversation} (h : parse name r = .ok c) :
    c.name = name ∧ c.InRange := by
  unfold parse at h
  simp only [bind, Except.bind] at h
  split at h
  · cases h
  · next d _ =>
    split at h
    · cases h
    · next hne =>
      cases h
      refine ⟨rfl, fun i hi => ?_⟩
      cases hi
      have hpos : 0 < d.nodes.length := List.length_pos_iff.2 (by simpa using hne)
      simpa using hpos

theorem exists_parse_of_any {name : String} {r : Text.Reader} {p : Conversation → Bool}
    (h : (parse name r).toOption.any p = true) : ∃ c, parse name r = .ok c ∧ p c = true := by
  cases hc : parse name r with
  | error e =>
      rw [hc] at h
      cases h
  | ok c =>
      rw [hc] at h
      exact ⟨c, rfl, by simpa [Except.toOption] using h⟩

/-! ### Snapshots -/

theorem toNat_toUInt32_le (n : Nat) : n.toUInt32.toNat ≤ n := by
  simpa using Nat.mod_le n UInt32.size

/-- A snapshot of a conversation comes back from every conversation of the same shape. -/
theorem Continues.snapshot_restore {c₀ c : Conversation} (h : c₀.Continues c) (hc : c.InRange) :
    (c₀.restore c.snapshot).snapshot = c.snapshot := by
  have hlengths : c.snapshot.visible.length = c₀.entries.length ∧
      c.snapshot.destroyed.length = c₀.entries.length := by
    simp [snapshot, h.entries]
  have hcurrent : (((c.current.map Nat.toUInt32).map UInt32.toNat).filter (· < c₀.nodes.length)).map
      Nat.toUInt32 = c.current.map Nat.toUInt32 := by
    cases hi : c.current with
    | none => rfl
    | some i =>
        have hlt : i.toUInt32.toNat < c₀.nodes.length :=
          Nat.lt_of_le_of_lt (toNat_toUInt32_le i) (h.nodes ▸ hc i hi)
        simp only [Option.map_some, Option.filter_some, hlt, decide_true, if_true]
        rw [Nat.toUInt32, UInt32.ofNat_toNat]
  have hflags : (c₀.entries.zip (c.snapshot.visible.zip c.snapshot.destroyed)).map Prod.snd =
      c.entries.map fun e => (e.visible, e.destroyed) := by
    rw [snapshot, List.zip_map', List.map_snd_zip (by simp [h.entries])]
  rw [restore, if_pos hlengths]
  simp only [snapshot, ConversationSnapshot.mk.injEq]
  refine ⟨h.name.symm, hcurrent, ?_, ?_⟩
  · simpa [snapshot, Function.comp_def] using congrArg (List.map Prod.fst) hflags
  · simpa [snapshot, Function.comp_def] using congrArg (List.map Prod.snd) hflags

end Adventure.Conversation
