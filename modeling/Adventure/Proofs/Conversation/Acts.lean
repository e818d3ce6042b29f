import Adventure.Proofs.Conversation.Marks
import Adventure.Proofs.Conversation.Pick
/-! What is done with a conversation. Whatever it is, no more changes than the current node and the flags of
the entries: a reset leads back to one and the same conversation. -/
namespace Adventure

/-- What an entry is by its text, whatever has become of it. -/
def Entry.authored (e : Entry) : Entry :=
  { e with visible := e.initial, destroyed := false }

theorem Entry.eq_of_authored {e e₀ : Entry} (h : e.authored = e₀.authored) :
    { e₀ with visible := e.visible, destroyed := e.destroyed } = e :=
  calc
    { e₀ with visible := e.visible, destroyed := e.destroyed }
    _ = { e₀.authored with visible := e.visible, destroyed := e.destroyed } := rfl
    _ = { e.authored with visible := e.visible, destroyed := e.destroyed } := by rw [h]
    _ = e := rfl

namespace Conversation

inductive Act where
  | lines (vars : Variables)
  | pick (name : String) (vars : Variables)
  | reset
  | finish
  | restore (s : ConversationSnapshot)

def act (c : Conversation) : Act → Conversation
  | .lines vars => (c.currentLines vars).2
  | .pick name vars => (c.pick name vars).conversation
  | .reset => c.reset
  | .finish => c.finish
  | .restore s => c.restore s

def run (c : Conversation) (acts : List Act) : Conversation :=
  acts.foldl act c

/-- The conversation goes on; it neither starts again nor is it loaded. -/
def Act.Plays : Act → Prop
  | .lines _ => True
  | .pick _ _ => True
  | .reset => False
  | .finish => True
  | .restore _ => False

variable {c c' : Conversation} {i : Nat}

/-! ### Picks -/

/-- A pick changes nothing, or the entry that is picked leaves its marks and the conversation moves on. -/
theorem pick_cases (c : Conversation) (name : String) (vars : Variables) :
    (c.pick name vars).conversation = c ∨ ∃ node index e current,
      (c.pick name vars).conversation = { c.applyEntry node index e with current } := by
  by_cases h : ∃ index e, c.Picks name index e
  · obtain ⟨index, e, hpicks⟩ := h
    obtain ⟨node, -, heq⟩ := pick_of_picks hpicks vars
    refine .inr ⟨node, index, e, (c.pick name vars).conversation.current, ?_⟩
    rw [heq, follow]
    split <;> rfl
  · exact .inl (by rw [pick_of_not_picks (fun index e hpicks => h ⟨index, e, hpicks⟩) vars])

/-! ### Texts -/

theorem reset_eq_of_map {g : Nat → Entry → Entry} (hname : c'.name = c.name) (hnodes : c'.nodes = c.nodes)
    (hg : ∀ i, c'.entryAt? i = (c.entryAt? i).map (g i)) (hauthored : ∀ i e, (g i e).authored = e.authored) :
    c'.reset = c.reset := by
  have hentries : c'.entries.map Entry.authored = c.entries.map Entry.authored := map_entries_eq hg hauthored
  unfold reset
  rw [hname, hnodes]
  exact congrArg (Conversation.mk c.name c.nodes · (some 0)) hentries

theorem reset_applyEntry (c : Conversation) (node : Node) (index : Nat) (e : Entry) (current : Option Nat) :
    { c.applyEntry node index e with current }.reset = c.reset := by
  rw [applyEntry_eq_entries]
  exact reset_eq_of_map rfl rfl (c.entryAt?_applyEntry node index e) fun _ _ => rfl

theorem reset_reset (c : Conversation) : c.reset.reset = c.reset :=
  reset_eq_of_map (g := fun _ => Entry.authored) rfl rfl (fun _ => List.getElem?_map) fun _ _ => rfl

/-- A snapshot that fits gives every entry the flags that stand at its place. -/
theorem restore_of_fits {s : ConversationSnapshot}
    (h : s.visible.length = c.entries.length ∧ s.destroyed.length = c.entries.length) :
    c.restore s = { c with
      entries := (c.entries.zip (s.visible.zip s.destroyed)).map fun p =>
        { p.1 with visible := p.2.1, destroyed := p.2.2 }
      current := (s.current.map UInt32.toNat).filter (· < c.nodes.length) } :=
  if_pos h

theorem reset_restore (c : Conversation) (s : ConversationSnapshot) : (c.restore s).reset = c.reset := by
  by_cases hfits : s.visible.length = c.entries.length ∧ s.destroyed.length = c.entries.length
  · have hfst : (c.entries.zip (s.visible.zip s.destroyed)).map Prod.fst = c.entries :=
      List.map_fst_zip (by simp [hfits])
    rw [restore_of_fits hfits]
    refine congrArg (Conversation.mk c.name c.nodes · (some 0)) ?_
    calc
      _ = ((c.entries.zip (s.visible.zip s.destroyed)).map Prod.fst).map Entry.authored := by
        rw [List.map_map, List.map_map]
        rfl
      _ = c.entries.map Entry.authored := by rw [hfst]
  · rw [restore, if_neg hfits, reset_reset]

theorem reset_act (c : Conversation) (a : Act) : (c.act a).reset = c.reset := by
  cases a with
  | lines vars => rfl
  | pick name vars =>
      change (c.pick name vars).conversation.reset = c.reset
      rcases c.pick_cases name vars with heq | ⟨node, index, e, current, heq⟩
      · rw [heq]
      · rw [heq, reset_applyEntry]
  | reset => exact c.reset_reset
  | finish => rfl
  | restore s => exact c.reset_restore s

theorem reset_run (c : Conversation) (acts : List Act) : (c.run acts).reset = c.reset := by
  induction acts generalizing c with
  | nil => rfl
  | cons a acts ih => exact (ih (c.act a)).trans (c.reset_act a)

/-! ### Destroyed entries -/

def IsDestroyedAt (c : Conversation) (i : Nat) : Prop :=
  ∃ e, c.entryAt? i = some e ∧ e.destroyed = true

instance (c : Conversation) (i : Nat) : Decidable (c.IsDestroyedAt i) :=
  decidable_of_iff ((c.entryAt? i).any Entry.destroyed = true) (Option.any_eq_true _ _)

theorem IsDestroyedAt.not_isShownAt (h : c.IsDestroyedAt i) : c.isShownAt i = false := by
  obtain ⟨e, he, hdestroyed⟩ := h
  rw [isShownAt_of_entryAt? he, Entry.isShown, hdestroyed, Bool.not_true, Bool.and_false]

theorem IsDestroyedAt.act {a : Act} (h : c.IsDestroyedAt i) (hplays : a.Plays) : (c.act a).IsDestroyedAt i := by
  cases a with
  | lines vars => exact h
  | pick name vars =>
      change (c.pick name vars).conversation.IsDestroyedAt i
      rcases c.pick_cases name vars with heq | ⟨node, index, e, current, heq⟩
      · rwa [heq]
      · obtain ⟨f, hf, hdestroyed⟩ := h
        refine ⟨c.marked node index e i f, ?_, ?_⟩
        · rw [heq]
          exact (c.entryAt?_applyEntry node index e i).trans (congrArg _ hf)
        · rw [marked, hdestroyed, Bool.true_or]
  | reset => cases hplays
  | finish => exact h
  | restore s => cases hplays

theorem IsDestroyedAt.run {acts : List Act} (h : c.IsDestroyedAt i) (hplays : ∀ a ∈ acts, a.Plays) :
    (c.run acts).IsDestroyedAt i := by
  induction acts generalizing c with
  | nil => exact h
  | cons a acts ih =>
      exact ih (h.act (hplays a List.mem_cons_self)) fun b hb => hplays b (List.mem_cons_of_mem a hb)

end Conversation
end Adventure
