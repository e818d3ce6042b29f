import Mathlib.Tactic.ByContra
import Adventure.Proofs.Conversation
/-! The marks that a pick leaves on the entries. Its effects name entries; what a name stands for depends on
the names alone, so that no effect of a pick changes what a later one means. -/
namespace Adventure

namespace Entry

/-- A mark leaves the name as it is, and marking twice is the same as marking once. -/
structure IsMark (f : Entry → Entry) : Prop where
  name : ∀ e, (f e).name = e.name
  twice : ∀ e, f (f e) = f e

def hide (e : Entry) : Entry :=
  { e with visible := false }

def unhide (e : Entry) : Entry :=
  { e with visible := true }

def destroy (e : Entry) : Entry :=
  { e with visible := false, destroyed := true }

theorem isMark_hide : IsMark hide :=
  ⟨fun _ => rfl, fun _ => rfl⟩

theorem isMark_unhide : IsMark unhide :=
  ⟨fun _ => rfl, fun _ => rfl⟩

theorem isMark_destroy : IsMark destroy :=
  ⟨fun _ => rfl, fun _ => rfl⟩

theorem IsMark.name_ite {f : Entry → Entry} (hf : IsMark f) (p : Prop) [Decidable p] (e : Entry) :
    (if p then f e else e).name = e.name := by
  split
  · exact hf.name e
  · rfl

/-- Of several marks the latest is the one that is seen. -/
theorem marks_eq (picked hides unhides destroys : Prop) [Decidable picked] [Decidable hides]
    [Decidable unhides] [Decidable destroys] (e : Entry) :
    let e₁ := if picked then e.hide else e
    let e₂ := if hides then e₁.hide else e₁
    let e₃ := if unhides then e₂.unhide else e₂
    (if destroys then e₃.destroy else e₃) = { e with
      visible := if destroys then false else if unhides then true else if picked ∨ hides then false else e.visible
      destroyed := e.destroyed || decide destroys } := by
  by_cases hdestroys : destroys <;> by_cases hunhides : unhides <;> by_cases hhides : hides <;>
    by_cases hpicked : picked <;> simp [hdestroys, hunhides, hhides, hpicked, hide, unhide, destroy]

end Entry

namespace Conversation

/-- The entry that a name stands for at a node: the first of the node's own entries that has it, or else the
first of the file. -/
inductive Means (c : Conversation) (node : Node) (name : String) : Nat → Prop where
  | own {before after : List Nat} {i : Nat} (hentries : node.entries = before ++ i :: after)
      (hnamed : c.isNamed name i) (hfirst : ∀ j ∈ before, ¬c.isNamed name j) : Means c node name i
  | other {before after : List Entry} {e : Entry} (hnone : ∀ j ∈ node.entries, ¬c.isNamed name j)
      (hentries : c.entries = before ++ e :: after) (hnamed : Text.same e.name name)
      (hfirst : ∀ f ∈ before, ¬Text.same f.name name) : Means c node name before.length

/-- Some name of the list stands for the entry. -/
def Aims (c : Conversation) (node : Node) (names : List String) (i : Nat) : Prop :=
  ∃ name ∈ names, c.Means node name i

variable {c c' : Conversation} {node : Node} {name : String} {names : List String} {i index : Nat}
  {f : Entry → Entry}

theorem means_iff : c.Means node name i ↔ c.resolve? node name = some i := by
  rw [resolve?, Option.or_eq_some_iff, List.find?_eq_some_iff_append, List.find?_eq_none]
  constructor
  · rintro (⟨hentries, hnamed, hfirst⟩ | @⟨before, after, e, hnone, hentries, hnamed, hfirst⟩)
    · exact .inl ⟨hnamed, _, _, hentries, fun j hj => by simpa using hfirst j hj⟩
    · refine .inr ⟨hnone, List.findIdx?_eq_some_iff_getElem.2 ?_⟩
      simp only [hentries]
      refine ⟨by simp, by simpa using hnamed, fun j hj => ?_⟩
      rw [List.getElem_append_left hj]
      exact hfirst _ (List.getElem_mem hj)
  · rintro (⟨hnamed, before, after, hentries, hfirst⟩ | ⟨hnone, hfind⟩)
    · exact .own hentries hnamed fun j hj => by simpa using hfirst j hj
    · obtain ⟨hi, hnamed, hfirst⟩ := List.findIdx?_eq_some_iff_getElem.1 hfind
      have hentries : c.entries = c.entries.take i ++ c.entries[i] :: c.entries.drop (i + 1) := by
        rw [List.getElem_cons_drop, List.take_append_drop]
      have hbefore : ∀ e ∈ c.entries.take i, ¬Text.same e.name name := by
        intro e he
        obtain ⟨j, hj, rfl⟩ := List.mem_take_iff_getElem.1 he
        exact hfirst j (by omega)
      have hmeans := Means.other hnone hentries hnamed hbefore
      rwa [List.length_take_of_le (Nat.le_of_lt hi)] at hmeans

theorem aims_iff : c.Aims node names i ↔ ∃ name ∈ names, c.resolve? node name = some i := by
  simp only [Aims, means_iff]

instance : Decidable (c.Aims node names i) :=
  decidable_of_iff _ aims_iff.symm

theorem aims_nil : ¬c.Aims node [] i := by
  rintro ⟨_, hname, -⟩
  exact List.not_mem_nil hname

theorem aims_cons : c.Aims node (name :: names) i ↔ c.resolve? node name = some i ∨ c.Aims node names i := by
  rw [aims_iff, aims_iff, List.exists_mem_cons_iff]

/-! ### Names -/

/-- The entries have the same names. -/
def SameNames (c c' : Conversation) : Prop :=
  c'.entries.map Entry.name = c.entries.map Entry.name

theorem SameNames.isNamed (h : c.SameNames c') : c'.isNamed name = c.isNamed name := by
  have hisNamed : ∀ (c : Conversation) i,
      c.isNamed name i = ((c.entries.map Entry.name)[i]?).any (Text.same · name) := by
    intro c i
    rw [Conversation.isNamed, entryAt?, List.getElem?_map, Option.any_map]
  funext i
  rw [hisNamed, hisNamed, h]

theorem SameNames.resolve? (h : c.SameNames c') : c'.resolve? node name = c.resolve? node name := by
  have hfind : ∀ c : Conversation, c.entries.findIdx? (fun e => Text.same e.name name) =
      (c.entries.map Entry.name).findIdx? (Text.same · name) := by
    intro c
    rw [List.findIdx?_map]
    rfl
  rw [Conversation.resolve?, Conversation.resolve?, h.isNamed, hfind, hfind, h]

theorem SameNames.aims_iff (h : c.SameNames c') : c'.Aims node names i ↔ c.Aims node names i := by
  simp only [Conversation.aims_iff, h.resolve?]

/-- What a change of the entries keeps of each of them, it keeps of all. -/
theorem map_entries_eq {α : Type} {φ : Entry → α} {g : Nat → Entry → Entry}
    (hg : ∀ i, c'.entryAt? i = (c.entryAt? i).map (g i)) (hφ : ∀ i e, φ (g i e) = φ e) :
    c'.entries.map φ = c.entries.map φ := by
  refine List.ext_getElem? fun i => ?_
  have hentry : c'.entries[i]? = c.entries[i]?.map (g i) := hg i
  rw [List.getElem?_map, List.getElem?_map, hentry, Option.map_map]
  exact congrArg (Option.map · c.entries[i]?) (funext (hφ i))

/-! ### Marks -/

theorem entryAt?_modify (c : Conversation) (index : Nat) (f : Entry → Entry) (i : Nat) :
    { c with entries := c.entries.modify index f }.entryAt? i =
      (c.entryAt? i).map fun e => if index = i then f e else e :=
  List.getElem?_modify f index c.entries i

theorem sameNames_modify (hf : Entry.IsMark f) (c : Conversation) (index : Nat) :
    c.SameNames { c with entries := c.entries.modify index f } :=
  map_entries_eq (entryAt?_modify c index f) fun _ => hf.name_ite _

/-- It does not matter how many of the names stand for an entry. -/
theorem entryAt?_updateNamed (hf : Entry.IsMark f) (c : Conversation) (names : List String) (i : Nat) :
    (updateNamed node f c names).entryAt? i =
      (c.entryAt? i).map fun e => if c.Aims node names i then f e else e := by
  induction names generalizing c with
  | nil => simp [updateNamed, aims_nil]
  | cons name names ih =>
      rw [updateNamed, List.foldl_cons]
      cases hresolve : c.resolve? node name with
      | none =>
          refine (ih c).trans ?_
          simp only [aims_cons, hresolve, reduceCtorEq, false_or]
      | some index =>
          have hsame := sameNames_modify hf c index
          refine (ih { c with entries := c.entries.modify index f }).trans ?_
          rw [entryAt?_modify, Option.map_map]
          refine congrArg (Option.map · (c.entryAt? i)) (funext fun e => ?_)
          simp only [Function.comp_apply, hsame.aims_iff, aims_cons, hresolve, Option.some.injEq]
          by_cases hindex : index = i <;> by_cases haims : c.Aims node names i <;> simp [hindex, haims, hf.twice]

theorem sameNames_updateNamed (node : Node) (hf : Entry.IsMark f) (c : Conversation) (names : List String) :
    c.SameNames (updateNamed node f c names) :=
  map_entries_eq (entryAt?_updateNamed hf c names) fun _ => hf.name_ite _

/-- What a pick makes of an entry: an entry that is destroyed is hidden, else one that is unhidden is visible,
else the one that is picked and the ones to hide are hidden. -/
def marked (c : Conversation) (node : Node) (index : Nat) (e : Entry) (i : Nat) (f : Entry) : Entry :=
  { f with
    visible :=
      if c.Aims node e.destroys i then false
      else if c.Aims node e.unhides i then true
      else if index = i ∨ c.Aims node e.hides i then false
      else f.visible
    destroyed := f.destroyed || decide (c.Aims node e.destroys i) }

theorem updateNamed_eq (node : Node) (f : Entry → Entry) (c : Conversation) (names : List String) :
    updateNamed node f c names = { c with entries := (updateNamed node f c names).entries } := by
  induction names generalizing c with
  | nil => rfl
  | cons name names ih =>
      rw [updateNamed, List.foldl_cons]
      split
      · next index _ => exact ih { c with entries := c.entries.modify index f }
      · exact ih c

theorem applyEntry_eq (c : Conversation) (node : Node) (index : Nat) (e : Entry) :
    c.applyEntry node index e = updateNamed node Entry.destroy (updateNamed node Entry.unhide
      (updateNamed node Entry.hide { c with entries := c.entries.modify index Entry.hide } e.hides)
        e.unhides) e.destroys := rfl

theorem applyEntry_eq_entries (c : Conversation) (node : Node) (index : Nat) (e : Entry) :
    c.applyEntry node index e = { c with entries := (c.applyEntry node index e).entries } := by
  rw [applyEntry_eq, updateNamed_eq, updateNamed_eq node Entry.unhide, updateNamed_eq node Entry.hide]

theorem entryAt?_applyEntry (c : Conversation) (node : Node) (index : Nat) (e : Entry) (i : Nat) :
    (c.applyEntry node index e).entryAt? i = (c.entryAt? i).map (c.marked node index e i) := by
  have hpicked : c.SameNames { c with entries := c.entries.modify index Entry.hide } :=
    sameNames_modify Entry.isMark_hide c index
  have hhidden := (sameNames_updateNamed node Entry.isMark_hide _ e.hides).trans hpicked
  have hunhidden := (sameNames_updateNamed node Entry.isMark_unhide _ e.unhides).trans hhidden
  rw [applyEntry_eq, entryAt?_updateNamed Entry.isMark_destroy, entryAt?_updateNamed Entry.isMark_unhide,
    entryAt?_updateNamed Entry.isMark_hide, entryAt?_modify, Option.map_map, Option.map_map, Option.map_map]
  refine congrArg (Option.map · (c.entryAt? i)) (funext fun f => ?_)
  simp only [Function.comp_apply, SameNames.aims_iff hpicked, SameNames.aims_iff hhidden,
    SameNames.aims_iff hunhidden]
  exact Entry.marks_eq _ _ _ _ f

end Conversation
end Adventure
