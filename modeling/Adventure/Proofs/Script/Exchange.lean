import Adventure.Proofs.Script.Adoption
/-! Exchanges of chunks: those of one owner are given back, and others are taken. No handle that found a chunk
before is handed out again, and the handles stand in the order of the chunks. -/
namespace Adventure.Script

/-! ### Handles that were given back -/

namespace Store
variable {s : Store} {id : ChunkId} {c : Chunk}

/-- The slot of the handle is of another generation by now. -/
def Spent (s : Store) (id : ChunkId) : Prop :=
  ∃ slot, s.slots[id.index]? = some slot ∧ slot.generation ≠ id.generation

/-- The slot of the handle is empty, and its next chunk will be of another generation. -/
def Vacated (s : Store) (id : ChunkId) : Prop :=
  ∃ g, s.slots[id.index]? = some ⟨g, none⟩ ∧ g ≠ id.generation

theorem Vacated.spent (h : s.Vacated id) : s.Spent id := by
  obtain ⟨g, hslot, hg⟩ := h
  exact ⟨_, hslot, hg⟩

theorem Spent.get?_eq_none (h : s.Spent id) : s.get? id = none := by
  obtain ⟨slot, hslot, hg⟩ := h
  simp [get?, hslot, hg]

theorem vacated_remove (hc : s.get? id = some c) : (s.remove id).2.Vacated id := by
  rw [remove_of_get?_eq_some hc]
  exact ⟨id.generation + 1, getElem?_set_self (get?_eq_some_iff.1 hc), by simp⟩

/-- An empty slot stays as it is when other chunks are taken out. -/
theorem Vacated.remove (h : s.Vacated id) (j : ChunkId) : (s.remove j).2.Vacated id := by
  obtain ⟨g, hslot, hg⟩ := h
  cases hc : s.get? j with
  | none =>
      rw [remove_of_get?_eq_none hc]
      exact ⟨g, hslot, hg⟩
  | some c =>
      have hindex : j.index ≠ id.index := by
        intro hindex
        have hj := get?_eq_some_iff.1 hc
        rw [hindex, hslot] at hj
        cases hj
      rw [remove_of_get?_eq_some hc]
      exact ⟨g, (List.getElem?_set_ne hindex).trans hslot, hg⟩

/-- A new chunk is of the generation that its slot has come to. -/
theorem Spent.insert (h : s.Spent id) (hs : s.Sound) (c : Chunk) : (s.insert c).2.Spent id := by
  obtain ⟨slot, hslot, hg⟩ := h
  cases hfree : s.free with
  | nil =>
      rw [insert_of_free_nil hfree]
      exact ⟨slot, (List.getElem?_append_left (List.getElem?_eq_some_iff.1 hslot).1).trans hslot, hg⟩
  | cons i rest =>
      obtain ⟨g, hi⟩ := (hs.mem_free i).1 (hfree ▸ List.mem_cons_self)
      rw [insert_of_free_cons hfree hi]
      by_cases hindex : i = id.index
      · subst hindex
        cases hi.symm.trans hslot
        exact ⟨⟨g, some c⟩, getElem?_set_self hi, hg⟩
      · exact ⟨slot, (List.getElem?_set_ne hindex).trans hslot, hg⟩

/-- The signature of the chunk that a handle finds. -/
def signature? (s : Store) (id : ChunkId) : Option String :=
  (s.get? id).map Chunk.signature

end Store

namespace Library
variable {l : Library} {gone ids : List ChunkId} {cs : List Chunk} {id : ChunkId} {c : Chunk} {sig : String}

theorem vacated_releaseAll (h : l.store.Vacated id) (gone : List ChunkId) :
    (l.releaseAll gone).store.Vacated id := by
  induction gone generalizing l with
  | nil => exact h
  | cons j gone ih => exact ih (release_store l j ▸ h.remove j)

theorem vacated_of_released (hc : l.store.get? id = some c) (hid : id ∈ gone) :
    (l.releaseAll gone).store.Vacated id := by
  induction gone generalizing l with
  | nil => cases hid
  | cons j gone ih =>
      by_cases hj : id = j
      · subst hj
        exact vacated_releaseAll (release_store l id ▸ Store.vacated_remove hc) gone
      · refine ih ?_ ((List.mem_cons.1 hid).resolve_left hj)
        rw [release_store, Store.get?_remove, if_neg hj, hc]

theorem spent_adopt (h : l.store.Spent id) (hs : l.store.Sound) (d : Chunk) :
    (l.adopt d).2.store.Spent id := by
  cases hplaced : placed d (l.register.get? d.signature) with
  | none => rwa [adopt_of_removed (placed_eq_none_iff.1 hplaced)]
  | some c =>
      rw [adopt_of_placed hplaced]
      exact h.insert hs c

theorem spent_adoptAll (h : l.store.Spent id) (hs : l.store.Sound) (cs : List Chunk) :
    (adoptAll cs l).2.store.Spent id := by
  induction cs generalizing l with
  | nil => exact h
  | cons d cs ih => exact ih (spent_adopt h hs d) (adopt_grows hs d).sound

/-- In an exchange no handle is handed out that found a chunk before, not even one that was given back. -/
theorem get?_eq_none_of_taken (hs : l.store.Sound) (hid : id ∈ (adoptAll cs (l.releaseAll gone)).1) :
    l.store.get? id = none := by
  have hs' := releaseAll_store_sound hs gone
  have hgrows := adoptAll_grows cs hs'
  by_contra hfound
  obtain ⟨c, hc⟩ := Option.ne_none_iff_exists'.1 hfound
  by_cases hgone : id ∈ gone
  · have hspent := spent_adoptAll (vacated_of_released hc hgone).spent hs' cs
    obtain ⟨d, hd⟩ := hgrows.stored id hid
    rw [hspent.get?_eq_none] at hd
    cases hd
  · have hunused := hgrows.unused id hid
    rw [releaseAll_store, if_neg hgone, hc] at hunused
    cases hunused

/-! ### What becomes of a signature -/

theorem signature?_release (l : Library) (id j : ChunkId) :
    (l.release id).store.signature? j = if j = id then none else l.store.signature? j := by
  rw [Store.signature?, release_store, Store.get?_remove]
  split <;> rfl

theorem releaseAll_register_of_not
    (h : ∀ id ∈ ids, l.register.get? sig = some (.live id) → l.store.signature? id ≠ some sig) :
    (l.releaseAll ids).register.get? sig = l.register.get? sig := by
  induction ids generalizing l with
  | nil => rfl
  | cons id ids ih =>
      obtain ⟨hid, hids⟩ := List.forall_mem_cons.1 h
      have hfirst : (l.release id).register.get? sig = l.register.get? sig := by
        rw [release_register, if_neg fun hlive => hid hlive.1 hlive.2]
      refine (ih fun j hj hlive => ?_).trans hfirst
      rw [signature?_release]
      split
      · exact nofun
      · exact hids j hj (hfirst ▸ hlive)

/-- A signature is forgotten with the chunk to which it leads. -/
theorem releaseAll_register_of_live (hid : id ∈ ids) (hlive : l.register.get? sig = some (.live id))
    (hsig : l.store.signature? id = some sig) : (l.releaseAll ids).register.get? sig = none := by
  induction ids generalizing l with
  | nil => cases hid
  | cons j ids ih =>
      by_cases hj : id = j
      · subst hj
        have hfirst : (l.release id).register.get? sig = none := by
          rw [release_register, if_pos ⟨hlive, hsig⟩]
        rw [releaseAll, List.foldl_cons, ← releaseAll, releaseAll_register_of_not, hfirst]
        intro k _ hk
        cases hfirst.symm.trans hk
      · refine ih ((List.mem_cons.1 hid).resolve_left hj) ?_ ?_
        · rw [release_register, if_neg, hlive]
          rintro ⟨hother, -⟩
          cases hlive.symm.trans hother
          exact hj rfl
        · rw [signature?_release, if_neg hj, hsig]

/-! ### The order of new chunks -/

/-- The chunks that are taken keep their order; those marked as removed are left out. -/
theorem signatures_adoptAll (hs : l.store.Sound) (cs : List Chunk) :
    (adoptAll cs l).1.map (adoptAll cs l).2.store.signature? =
      (cs.filter fun d => l.register.get? d.signature ≠ some .removed).map fun d => some d.signature := by
  induction cs generalizing l with
  | nil => rfl
  | cons d cs ih =>
      have hs' := (adopt_grows hs d).sound
      have hrest := ih hs'
      simp only [ne_eq, adopt_removed_iff] at hrest
      cases hplaced : placed d (l.register.get? d.signature) with
      | none =>
          have hrem := placed_eq_none_iff.1 hplaced
          rw [adopt_of_removed hrem] at hrest
          rw [List.filter_cons_of_neg (by simp [hrem])]
          simp only [adoptAll, adopt_of_removed hrem, Option.toList_none, List.nil_append, hrest, ne_eq]
      | some c =>
          obtain ⟨id, hid, hc, -⟩ := adopt_store hs hplaced
          have hlater := (adoptAll_grows cs hs').get?_of_some hc
          have hsig : c.signature = d.signature := Chunk.signature_of_fresh_eq (fresh_of_placed hplaced)
          rw [List.filter_cons_of_pos (by simpa using ne_removed_of_placed hplaced)]
          simp only [adoptAll, hid, Option.toList_some, List.singleton_append, List.map_cons, hrest,
            Store.signature?, hlater, Option.map_some, hsig, ne_eq]

theorem adoptAll_in_order (hs : l.store.Sound) (cs : List Chunk) : ∃ taken : List Chunk, taken.Sublist cs ∧
    (adoptAll cs l).1.map (adoptAll cs l).2.store.signature? = taken.map fun d => some d.signature :=
  ⟨_, List.filter_sublist, signatures_adoptAll hs cs⟩

end Library
end Adventure.Script
