import Mathlib.Data.List.Nodup
import Adventure.Script.Store
/-! The store of chunks as a map from handles: what each operation does to the chunks that handles
find. -/
namespace Adventure.Script.Store

/-- The free list holds the empty slots, each once. -/
structure Sound (s : Store) : Prop where
  nodup : s.free.Nodup
  mem_free : ∀ i, i ∈ s.free ↔ ∃ g, s.slots[i]? = some ⟨g, none⟩

theorem Sound.empty : Store.empty.Sound where
  nodup := List.nodup_nil
  mem_free := by simp [Store.empty]

theorem get?_eq_some_iff {s : Store} {id : ChunkId} {c : Chunk} :
    s.get? id = some c ↔ s.slots[id.index]? = some ⟨id.generation, some c⟩ := by
  unfold get?
  constructor
  · intro h
    split at h
    · next slot hslot =>
      split at h
      · next hg => rw [hslot, ← hg, ← h]
      · cases h
    · cases h
  · intro h
    simp [h]

@[simp] theorem get?_empty (id : ChunkId) : Store.empty.get? id = none := by
  simp [get?, Store.empty]

theorem get?_congr {s t : Store} {id : ChunkId} (h : s.slots[id.index]? = t.slots[id.index]?) :
    s.get? id = t.get? id := by
  unfold get?
  rw [h]

theorem get?_eq_none_of_ne {s : Store} (id : ChunkId) {j : ChunkId} {o : Option Chunk}
    (h : s.slots[id.index]? = some ⟨id.generation, o⟩) (hi : j.index = id.index) (hj : j ≠ id) :
    s.get? j = none := by
  have hg : id.generation ≠ j.generation := by
    intro hg
    exact hj (by cases j; cases id; simp_all)
  simp only [get?, hi, h, if_neg hg]

theorem getElem?_set_self {s : Store} {i : Nat} {slot slot' : Slot} (h : s.slots[i]? = some slot) :
    (s.slots.set i slot')[i]? = some slot' :=
  List.getElem?_set_self (List.getElem?_eq_some_iff.1 h).1

/-! ### Changing a chunk -/

theorem modify_of_get?_eq_none {s : Store} {id : ChunkId} (h : s.get? id = none) (f : Chunk → Chunk) :
    s.modify id f = s := by
  simp [modify, h]

theorem modify_of_get?_eq_some {s : Store} {id : ChunkId} {c : Chunk} (h : s.get? id = some c)
    (f : Chunk → Chunk) :
    s.modify id f = { s with slots := s.slots.set id.index ⟨id.generation, some (f c)⟩ } := by
  simp [modify, h]

theorem get?_modify (s : Store) (id : ChunkId) (f : Chunk → Chunk) (j : ChunkId) :
    (s.modify id f).get? j = if j = id then (s.get? id).map f else s.get? j := by
  cases hc : s.get? id with
  | none =>
      rw [modify_of_get?_eq_none hc]
      by_cases hj : j = id
      · subst hj; simp [hc]
      · simp [hj]
  | some c =>
      rw [modify_of_get?_eq_some hc]
      have hslot := get?_eq_some_iff.1 hc
      by_cases hj : j = id
      · subst hj
        rw [if_pos rfl, Option.map_some, get?_eq_some_iff]
        exact getElem?_set_self hslot
      · rw [if_neg hj]
        by_cases hi : j.index = id.index
        · rw [get?_eq_none_of_ne id hslot hi hj]
          exact get?_eq_none_of_ne id (getElem?_set_self hslot) hi hj
        · exact get?_congr (List.getElem?_set_ne (Ne.symm hi))

@[simp] theorem get?_modify_self (s : Store) (id : ChunkId) (f : Chunk → Chunk) :
    (s.modify id f).get? id = (s.get? id).map f := by
  simp [get?_modify]

theorem get?_modify_of_ne (s : Store) {id j : ChunkId} (f : Chunk → Chunk) (h : j ≠ id) :
    (s.modify id f).get? j = s.get? j := by
  simp [get?_modify, h]

theorem Sound.modify {s : Store} (hs : s.Sound) (id : ChunkId) (f : Chunk → Chunk) :
    (s.modify id f).Sound := by
  cases hc : s.get? id with
  | none => rwa [modify_of_get?_eq_none hc]
  | some c =>
      rw [modify_of_get?_eq_some hc]
      refine ⟨hs.nodup, fun i => (hs.mem_free i).trans ?_⟩
      have hslot := get?_eq_some_iff.1 hc
      by_cases hi : i = id.index
      · subst hi
        rw [hslot, getElem?_set_self hslot]
        simp
      · rw [List.getElem?_set_ne (Ne.symm hi)]

/-! ### Putting in -/

theorem insert_of_free_nil {s : Store} (h : s.free = []) (c : Chunk) :
    s.insert c = (⟨s.slots.length, 0⟩, { s with slots := s.slots ++ [⟨0, some c⟩] }) := by
  simp [insert, h]

theorem insert_of_free_cons {s : Store} {i : Nat} {rest : List Nat} {g : UInt32} (h : s.free = i :: rest)
    (hi : s.slots[i]? = some ⟨g, none⟩) (c : Chunk) :
    s.insert c = (⟨i, g⟩, { slots := s.slots.set i ⟨g, some c⟩, free := rest }) := by
  simp [insert, h, hi]

/-- A chunk gets a handle that found nothing before. -/
theorem Sound.get?_insert_fst {s : Store} (hs : s.Sound) (c : Chunk) : s.get? (s.insert c).1 = none := by
  cases hfree : s.free with
  | nil => simp [insert_of_free_nil hfree, get?]
  | cons i rest =>
      obtain ⟨g, hi⟩ := (hs.mem_free i).1 (hfree ▸ List.mem_cons_self)
      simp [insert_of_free_cons hfree hi, get?, hi]

theorem Sound.get?_insert {s : Store} (hs : s.Sound) (c : Chunk) (j : ChunkId) :
    (s.insert c).2.get? j = if j = (s.insert c).1 then some c else s.get? j := by
  cases hfree : s.free with
  | nil =>
      rw [insert_of_free_nil hfree]
      have hnew : (s.slots ++ [⟨0, some c⟩])[s.slots.length]? = some ⟨0, some c⟩ := by simp
      by_cases hj : j = ⟨s.slots.length, 0⟩
      · subst hj
        rw [if_pos rfl, get?_eq_some_iff]
        exact hnew
      · rw [if_neg hj]
        by_cases hi : j.index = s.slots.length
        · rw [get?_eq_none_of_ne ⟨s.slots.length, 0⟩ hnew hi hj]
          simp [get?, hi]
        · refine get?_congr ?_
          rcases Nat.lt_or_gt_of_ne hi with hlt | hgt
          · exact List.getElem?_append_left hlt
          · rw [List.getElem?_eq_none (Nat.le_of_lt hgt), List.getElem?_eq_none (by simp; omega)]
  | cons i rest =>
      obtain ⟨g, hi⟩ := (hs.mem_free i).1 (hfree ▸ List.mem_cons_self)
      rw [insert_of_free_cons hfree hi]
      by_cases hj : j = ⟨i, g⟩
      · subst hj
        rw [if_pos rfl, get?_eq_some_iff]
        exact getElem?_set_self hi
      · rw [if_neg hj]
        by_cases hji : j.index = i
        · rw [get?_eq_none_of_ne ⟨i, g⟩ hi hji hj]
          exact get?_eq_none_of_ne ⟨i, g⟩ (getElem?_set_self hi) hji hj
        · exact get?_congr (List.getElem?_set_ne (Ne.symm hji))

theorem Sound.insert {s : Store} (hs : s.Sound) (c : Chunk) : (s.insert c).2.Sound := by
  cases hfree : s.free with
  | nil =>
      rw [insert_of_free_nil hfree]
      refine ⟨hs.nodup, fun i => (hs.mem_free i).trans ?_⟩
      rcases Nat.lt_trichotomy i s.slots.length with hlt | heq | hgt
      · rw [List.getElem?_append_left hlt]
      · subst heq; simp
      · rw [List.getElem?_eq_none (Nat.le_of_lt hgt), List.getElem?_eq_none (by simp; omega)]
  | cons i rest =>
      obtain ⟨g, hi⟩ := (hs.mem_free i).1 (hfree ▸ List.mem_cons_self)
      obtain ⟨hnot, hrest⟩ := List.nodup_cons.1 (hfree ▸ hs.nodup)
      rw [insert_of_free_cons hfree hi]
      refine ⟨hrest, fun k => ?_⟩
      have hk := hs.mem_free k
      rw [hfree, List.mem_cons] at hk
      by_cases hki : k = i
      · subst hki
        rw [getElem?_set_self hi]
        simp [hnot]
      · rw [List.getElem?_set_ne (Ne.symm hki), ← hk]
        simp [hki]

/-! ### Taking out -/

theorem remove_fst (s : Store) (id : ChunkId) : (s.remove id).1 = s.get? id := by
  unfold remove
  split
  · next hc => exact hc.symm
  · next hc => exact hc.symm

theorem remove_of_get?_eq_none {s : Store} {id : ChunkId} (h : s.get? id = none) :
    s.remove id = (none, s) := by
  simp [remove, h]

theorem remove_of_get?_eq_some {s : Store} {id : ChunkId} {c : Chunk} (h : s.get? id = some c) :
    s.remove id = (some c, {
      slots := s.slots.set id.index ⟨id.generation + 1, none⟩
      free := id.index :: s.free }) := by
  simp [remove, h]

theorem get?_remove (s : Store) (id j : ChunkId) :
    (s.remove id).2.get? j = if j = id then none else s.get? j := by
  cases hc : s.get? id with
  | none =>
      rw [remove_of_get?_eq_none hc]
      by_cases hj : j = id
      · subst hj; simp [hc]
      · simp [hj]
  | some c =>
      rw [remove_of_get?_eq_some hc]
      have hslot := get?_eq_some_iff.1 hc
      by_cases hi : j.index = id.index
      · -- The slot is empty now, and before it held one generation.
        have hbefore : (if j = id then none else s.get? j) = none := by
          by_cases hj : j = id
          · exact if_pos hj
          · rw [if_neg hj, get?_eq_none_of_ne id hslot hi hj]
        rw [hbefore]
        simp only [get?, hi, getElem?_set_self hslot, ite_self]
      · have hj : j ≠ id := fun hj => hi (hj ▸ rfl)
        rw [if_neg hj]
        exact get?_congr (List.getElem?_set_ne (Ne.symm hi))

theorem Sound.remove {s : Store} (hs : s.Sound) (id : ChunkId) : (s.remove id).2.Sound := by
  cases hc : s.get? id with
  | none => rwa [remove_of_get?_eq_none hc]
  | some c =>
      rw [remove_of_get?_eq_some hc]
      have hslot := get?_eq_some_iff.1 hc
      have hnot : id.index ∉ s.free := by
        intro hmem
        obtain ⟨g, hg⟩ := (hs.mem_free _).1 hmem
        rw [hslot] at hg
        cases hg
      refine ⟨List.nodup_cons.2 ⟨hnot, hs.nodup⟩, fun i => ?_⟩
      rw [List.mem_cons, hs.mem_free]
      by_cases hi : i = id.index
      · subst hi
        rw [getElem?_set_self hslot]
        simp
      · rw [List.getElem?_set_ne (Ne.symm hi)]
        simp [hi]

end Adventure.Script.Store
