import Mathlib.Data.List.Count
import Mathlib.Data.List.Nodup
import Mathlib.Data.List.Perm.Subperm
import Adventure.Proofs.Script.Deeds
/-! Handles over a whole run. What was done with a store is logged, and the log alone says which chunk a handle stands
for: the one put in under it, with its changes, until it is taken out. The generation of a slot counts the chunks
taken out of it, so no handle is given out twice until a generation comes round again. -/
namespace Adventure.Script.Store

variable {s : Store} {id j : ChunkId} {c : Chunk}

/-! ### Slots and sizes -/

/-- A chunk goes into an empty slot, or into a new one. -/
theorem Sound.slot_insert_fst (hs : s.Sound) (c : Chunk) :
    s.slots[(s.insert c).1.index]? = some ⟨(s.insert c).1.generation, none⟩ ∨
      s.slots[(s.insert c).1.index]? = none ∧ (s.insert c).1.generation = 0 := by
  cases hfree : s.free with
  | nil =>
      rw [insert_of_free_nil hfree]
      exact .inr ⟨List.getElem?_eq_none (Nat.le_refl _), rfl⟩
  | cons i rest =>
      obtain ⟨g, hi⟩ := (hs.mem_free i).1 (hfree ▸ List.mem_cons_self)
      rw [insert_of_free_cons hfree hi]
      exact .inl hi

theorem Sound.slots_insert (hs : s.Sound) (c : Chunk) (i : Nat) : (s.insert c).2.slots[i]? =
    if i = (s.insert c).1.index then some ⟨(s.insert c).1.generation, some c⟩ else s.slots[i]? := by
  cases hfree : s.free with
  | nil =>
      rw [insert_of_free_nil hfree]
      split
      · next hi => simp [hi]
      · next hi =>
        rcases Nat.lt_or_gt_of_ne hi with hlt | hgt
        · exact List.getElem?_append_left hlt
        · rw [List.getElem?_eq_none (Nat.le_of_lt hgt)]
          refine List.getElem?_eq_none ?_
          rw [List.length_append]
          exact hgt
  | cons k rest =>
      obtain ⟨g, hk⟩ := (hs.mem_free k).1 (hfree ▸ List.mem_cons_self)
      rw [insert_of_free_cons hfree hk]
      split
      · next hi =>
        subst hi
        exact getElem?_set_self hk
      · next hi => exact List.getElem?_set_ne (Ne.symm hi)

theorem slots_remove (s : Store) (id : ChunkId) (i : Nat) : (s.remove id).2.slots[i]? =
    if id.index = i ∧ (s.get? id).isSome then some ⟨id.generation + 1, none⟩ else s.slots[i]? := by
  cases hc : s.get? id with
  | none => simp [remove_of_get?_eq_none hc]
  | some c =>
      rw [remove_of_get?_eq_some hc]
      by_cases hi : id.index = i
      · subst hi
        rw [if_pos ⟨rfl, rfl⟩]
        exact getElem?_set_self (get?_eq_some_iff.1 hc)
      · rw [if_neg fun h => hi h.1]
        exact List.getElem?_set_ne hi

/-- A change leaves each slot its generation and fills none. -/
theorem slots_modify (s : Store) (id : ChunkId) (f : Chunk → Chunk) (i : Nat) :
    ((s.modify id f).slots[i]?).map (fun slot => (slot.generation, slot.chunk.isSome)) =
      (s.slots[i]?).map fun slot => (slot.generation, slot.chunk.isSome) := by
  cases hc : s.get? id with
  | none => rw [modify_of_get?_eq_none hc]
  | some c =>
      rw [modify_of_get?_eq_some hc]
      have hslot := get?_eq_some_iff.1 hc
      by_cases hi : id.index = i
      · subst hi
        rw [getElem?_set_self hslot, hslot]
        rfl
      · rw [List.getElem?_set_ne hi]

theorem Sound.length_free_le (hs : s.Sound) : s.free.length ≤ s.slots.length := by
  have hsub : s.free ⊆ List.range s.slots.length := by
    intro i hi
    obtain ⟨g, hslot⟩ := (hs.mem_free i).1 hi
    exact List.mem_range.2 (List.getElem?_eq_some_iff.1 hslot).1
  simpa using (hs.nodup.subperm hsub).length_le

theorem Sound.size_insert (hs : s.Sound) (c : Chunk) : (s.insert c).2.size = s.size + 1 := by
  have hle := hs.length_free_le
  cases hfree : s.free with
  | nil => simp [insert_of_free_nil hfree, size, hfree]
  | cons i rest =>
      obtain ⟨g, hi⟩ := (hs.mem_free i).1 (hfree ▸ List.mem_cons_self)
      rw [hfree, List.length_cons] at hle
      rw [insert_of_free_cons hfree hi, size, size, hfree, List.length_set, List.length_cons]
      dsimp only
      omega

theorem Sound.size_remove (hs : s.Sound) (hc : s.get? id = some c) : (s.remove id).2.size + 1 = s.size := by
  have hle := (hs.remove id).length_free_le
  rw [remove_of_get?_eq_some hc, List.length_set, List.length_cons] at hle
  rw [remove_of_get?_eq_some hc, size, size, List.length_set, List.length_cons]
  omega

theorem size_modify (s : Store) (id : ChunkId) (f : Chunk → Chunk) : (s.modify id f).size = s.size := by
  cases hc : s.get? id with
  | none => rw [modify_of_get?_eq_none hc]
  | some c => rw [modify_of_get?_eq_some hc, size, List.length_set, size]

/-! ### Logs -/

/-- What was done with a store. -/
inductive Entry where
  /-- The chunk was put in, and the handle given out. -/
  | inserted (id : ChunkId) (chunk : Chunk)
  | removed (id : ChunkId)
  | modified (id : ChunkId) (f : Chunk → Chunk)

def entry (s : Store) : Act → Entry
  | .insert chunk => .inserted (s.insert chunk).1 chunk
  | .remove id => .removed id
  | .modify id f => .modified id f

/-- The log of a run that goes on from a store; the latest entry comes first. -/
def logFrom (s : Store) (log : List Entry) : List Act → List Entry
  | [] => log
  | a :: acts => logFrom (s.act a) (s.entry a :: log) acts

def logOf (acts : List Act) : List Entry :=
  logFrom .empty [] acts

/-- The chunk put in under a handle, with its changes, unless it was taken out. -/
def chunkOf : List Entry → ChunkId → Option Chunk
  | [], _ => none
  | .inserted j chunk :: log, id => if id = j then some chunk else chunkOf log id
  | .removed j :: log, id => if id = j then none else chunkOf log id
  | .modified j f :: log, id => if id = j then (chunkOf log id).map f else chunkOf log id

/-- The handles that were given out. -/
def handles : List Entry → List ChunkId
  | [] => []
  | .inserted id _ :: log => id :: handles log
  | .removed _ :: log => handles log
  | .modified _ _ :: log => handles log

/-- How often a chunk was taken out of a slot. -/
def removals (i : Nat) : List Entry → Nat
  | [] => 0
  | .inserted _ _ :: log => removals i log
  | .removed id :: log => removals i log + if id.index = i ∧ (chunkOf log id).isSome then 1 else 0
  | .modified _ _ :: log => removals i log

variable {log : List Entry}

theorem removals_le_cons (i : Nat) (entry : Entry) (log : List Entry) :
    removals i log ≤ removals i (entry :: log) := by
  cases entry with
  | inserted id chunk => exact Nat.le_refl _
  | removed id => exact Nat.le_add_right _ _
  | modified id f => exact Nat.le_refl _

theorem removals_le_length (i : Nat) (log : List Entry) : removals i log ≤ log.length := by
  induction log with
  | nil => exact Nat.le_refl 0
  | cons entry log ih =>
      rw [List.length_cons]
      cases entry with
      | inserted id chunk => exact Nat.le_succ_of_le ih
      | removed id =>
          rw [removals]
          split <;> omega
      | modified id f => exact Nat.le_succ_of_le ih

theorem mem_handles_of_isSome (h : (chunkOf log id).isSome = true) : id ∈ handles log := by
  induction log with
  | nil => cases h
  | cons entry log ih =>
      cases entry with
      | inserted j chunk =>
          rw [chunkOf] at h
          split at h
          · next hid => exact hid ▸ List.mem_cons_self
          · exact List.mem_cons_of_mem j (ih h)
      | removed j =>
          rw [chunkOf] at h
          split at h
          · cases h
          · exact ih h
      | modified j f =>
          rw [chunkOf] at h
          split at h
          · exact ih (by rwa [Option.isSome_map] at h)
          · exact ih h

/-- No slot's generation has come round. -/
def Bounded (log : List Entry) : Prop :=
  ∀ i, removals i log < UInt32.size

theorem Bounded.of_cons {entry : Entry} (h : Bounded (entry :: log)) : Bounded log :=
  fun i => Nat.lt_of_le_of_lt (removals_le_cons i entry log) (h i)

/-! ### What a run keeps -/

/-- How many handles find a chunk. -/
def liveCount (log : List Entry) : Nat :=
  (handles log).countP fun id => (chunkOf log id).isSome

/-- The store stands where the log has led it. -/
structure Traced (s : Store) (log : List Entry) : Prop where
  sound : s.Sound
  finds : ∀ id, s.get? id = chunkOf log id
  generation : ∀ i slot, s.slots[i]? = some slot → slot.generation = UInt32.ofNat (removals i log)
  untouched : ∀ i, s.slots[i]? = none → removals i log = 0
  /-- A handle has the count of removals at which it was given out. Another one follows before its slot is empty. -/
  handed : ∀ id ∈ handles log, ∃ k slot, s.slots[id.index]? = some slot ∧ id.generation = UInt32.ofNat k ∧
    k ≤ removals id.index log ∧ (slot.chunk.isSome = false → k < removals id.index log)
  distinct : Bounded log → (handles log).Nodup
  size : Bounded log → s.size = liveCount log

theorem Traced.empty : Traced Store.empty [] where
  sound := .empty
  finds := get?_empty
  generation := by simp [Store.empty]
  untouched := fun _ _ => rfl
  handed := by simp [handles]
  distinct := fun _ => List.nodup_nil
  size := fun _ => rfl

theorem Traced.generation_insert (h : Traced s log) (c : Chunk) :
    (s.insert c).1.generation = UInt32.ofNat (removals (s.insert c).1.index log) := by
  rcases h.sound.slot_insert_fst c with hempty | ⟨hnew, hzero⟩
  · exact h.generation _ _ hempty
  · rw [hzero, h.untouched _ hnew]
    rfl

/-- A handle that is given out was not given out before. -/
theorem Traced.fresh (h : Traced s log) (hbounded : Bounded log) (c : Chunk) : (s.insert c).1 ∉ handles log := by
  intro hmem
  obtain ⟨k, slot, hslot, hk, hle, hlt⟩ := h.handed _ hmem
  have hempty : slot.chunk.isSome = false := by
    rcases h.sound.slot_insert_fst c with hempty | ⟨hnew, -⟩
    · rw [hempty] at hslot
      cases hslot
      rfl
    · rw [hnew] at hslot
      cases hslot
  have hround := congrArg UInt32.toNat (hk.symm.trans (h.generation_insert c))
  have hbound := hbounded (s.insert c).1.index
  rw [UInt32.toNat_ofNat_of_lt' (Nat.lt_of_le_of_lt hle hbound), UInt32.toNat_ofNat_of_lt' hbound] at hround
  exact Nat.ne_of_lt (hlt hempty) hround

theorem Traced.insert (h : Traced s log) (c : Chunk) :
    Traced (s.insert c).2 (.inserted (s.insert c).1 c :: log) where
  sound := h.sound.insert c
  finds j := by rw [h.sound.get?_insert, h.finds, chunkOf]
  generation i slot hslot := by
    rw [h.sound.slots_insert] at hslot
    split at hslot
    · next hi =>
      cases hslot
      rw [hi]
      exact h.generation_insert c
    · exact h.generation i slot hslot
  untouched i hi := by
    rw [h.sound.slots_insert] at hi
    split at hi
    · cases hi
    · exact h.untouched i hi
  handed j hj := by
    rw [h.sound.slots_insert]
    rcases List.mem_cons.1 hj with rfl | hj
    · rw [if_pos rfl]
      exact ⟨_, _, rfl, h.generation_insert c, Nat.le_refl _, nofun⟩
    · obtain ⟨k, slot, hslot, hk, hle, hlt⟩ := h.handed j hj
      split
      · exact ⟨k, _, rfl, hk, hle, nofun⟩
      · exact ⟨k, slot, hslot, hk, hle, hlt⟩
  distinct hbounded := List.nodup_cons.2 ⟨h.fresh hbounded c, h.distinct hbounded⟩
  size hbounded := by
    have hfresh := h.fresh hbounded c
    have hothers : (handles log).countP (fun j => (chunkOf (.inserted (s.insert c).1 c :: log) j).isSome) =
        liveCount log := by
      refine List.countP_congr fun j hj => ?_
      have hne : j ≠ (s.insert c).1 := fun heq => hfresh (heq ▸ hj)
      rw [chunkOf, if_neg hne]
    have hcount : liveCount (.inserted (s.insert c).1 c :: log) = liveCount log + 1 := by
      rw [liveCount, handles, List.countP_cons_of_pos (by simp [chunkOf]), hothers]
    rw [h.sound.size_insert, h.size hbounded, hcount]

theorem Traced.remove (h : Traced s log) (id : ChunkId) : Traced (s.remove id).2 (.removed id :: log) where
  sound := h.sound.remove id
  finds j := by rw [get?_remove, h.finds, chunkOf]
  generation i slot hslot := by
    rw [slots_remove, h.finds] at hslot
    rw [removals]
    split at hslot
    · next hi =>
      cases hslot
      obtain ⟨rfl, hsome⟩ := hi
      obtain ⟨c, hc⟩ := Option.isSome_iff_exists.1 hsome
      have hgeneration := h.generation _ _ (get?_eq_some_iff.1 ((h.finds id).trans hc))
      rw [if_pos ⟨rfl, hsome⟩, UInt32.ofNat_add, ← hgeneration]
      rfl
    · next hi =>
      rw [if_neg hi, Nat.add_zero]
      exact h.generation i slot hslot
  untouched i hi := by
    rw [slots_remove, h.finds] at hi
    rw [removals]
    split at hi
    · cases hi
    · next hnot => rw [if_neg hnot, Nat.add_zero, h.untouched i hi]
  handed j hj := by
    obtain ⟨k, slot, hslot, hk, hle, hlt⟩ := h.handed j hj
    rw [slots_remove, h.finds, removals]
    split
    · exact ⟨k, _, rfl, hk, Nat.le_succ_of_le hle, fun _ => Nat.lt_succ_of_le hle⟩
    · exact ⟨k, slot, hslot, hk, hle, hlt⟩
  distinct hbounded := h.distinct hbounded.of_cons
  size hbounded := by
    have hnodup := h.distinct hbounded.of_cons
    have hsize := h.size hbounded.of_cons
    cases hc : chunkOf log id with
    | none =>
        have hothers : liveCount (.removed id :: log) = liveCount log := by
          refine List.countP_congr fun j hj => ?_
          rw [chunkOf]
          split
          · next hj => rw [hj, hc]
          · rfl
        rw [remove_of_get?_eq_none ((h.finds id).trans hc), hothers, hsize]
    | some c =>
        have hsome : (chunkOf log id).isSome = true := by rw [hc]; rfl
        have hmem := mem_handles_of_isSome hsome
        have hothers : liveCount (.removed id :: log) =
            ((handles log).erase id).countP fun j => (chunkOf log j).isSome := by
          rw [hnodup.erase_eq_filter, List.countP_filter, liveCount]
          refine List.countP_congr fun j hj => ?_
          rw [chunkOf]
          by_cases hj : j = id <;> simp [hj]
        have hpos : 0 < liveCount log := List.countP_pos_iff.2 ⟨id, hmem, hsome⟩
        have hremove := h.sound.size_remove ((h.finds id).trans hc)
        rw [hothers, List.countP_erase, if_pos ⟨hmem, hsome⟩]
        rw [liveCount] at hpos hsize
        omega

theorem Traced.modify (h : Traced s log) (id : ChunkId) (f : Chunk → Chunk) :
    Traced (s.modify id f) (.modified id f :: log) where
  sound := h.sound.modify id f
  finds j := by
    rw [get?_modify, h.finds, h.finds, chunkOf]
    split
    · next hj => rw [hj]
    · rfl
  generation i slot hslot := by
    have hsame := slots_modify s id f i
    rw [hslot, Option.map_some] at hsame
    obtain ⟨slot', hslot', heq⟩ := Option.map_eq_some_iff.1 hsame.symm
    rw [← (Prod.mk.inj heq).1]
    exact h.generation i slot' hslot'
  untouched i hi := by
    have hsame := slots_modify s id f i
    rw [hi, Option.map_none] at hsame
    exact h.untouched i (Option.map_eq_none_iff.1 hsame.symm)
  handed j hj := by
    obtain ⟨k, slot, hslot, hk, hle, hlt⟩ := h.handed j hj
    have hsame := slots_modify s id f j.index
    rw [hslot, Option.map_some] at hsame
    obtain ⟨slot', hslot', heq⟩ := Option.map_eq_some_iff.1 hsame
    exact ⟨k, slot', hslot', hk, hle, fun hempty => hlt ((Prod.mk.inj heq).2 ▸ hempty)⟩
  distinct hbounded := h.distinct hbounded.of_cons
  size hbounded := by
    have hothers : liveCount (.modified id f :: log) = liveCount log := by
      refine List.countP_congr fun j hj => ?_
      rw [chunkOf]
      split
      · rw [Option.isSome_map]
      · rfl
    rw [size_modify, h.size hbounded.of_cons, hothers]

theorem Traced.act (h : Traced s log) (a : Act) : Traced (s.act a) (s.entry a :: log) := by
  cases a with
  | insert chunk => exact h.insert chunk
  | remove id => exact h.remove id
  | modify id f => exact h.modify id f

theorem Traced.run (h : Traced s log) (acts : List Act) : Traced (acts.foldl Store.act s) (logFrom s log acts) := by
  induction acts generalizing s log with
  | nil => exact h
  | cons a acts ih => exact ih (h.act a)

/-! ### The store as a map -/

/-- The store is the map that the log tells of. -/
structure Serves (s : Store) (log : List Entry) : Prop where
  get? : ∀ id, s.get? id = chunkOf log id
  taken : ∀ id, (s.remove id).1 = chunkOf log id
  /-- A chunk is taken out for its own handle only. -/
  remove : ∀ id j, (s.remove id).2.get? j = if j = id then none else chunkOf log j
  /-- A chunk is changed for its own handle only. -/
  modify : ∀ id f j, (s.modify id f).get? j = if j = id then (chunkOf log id).map f else chunkOf log j
  /-- A handle that finds nothing changes nothing. -/
  unchanged : ∀ id, chunkOf log id = none → s.remove id = (none, s) ∧ ∀ f, s.modify id f = s
  fresh : ∀ c, (s.insert c).1 ∉ handles log
  distinct : (handles log).Nodup
  /-- Every handle has a slot of the store. -/
  index_lt : ∀ id ∈ handles log, id.index < s.slots.length
  free_nodup : s.free.Nodup
  mem_free : ∀ i, i ∈ s.free ↔ ∃ g, s.slots[i]? = some ⟨g, none⟩
  size : s.size = (handles log).countP fun id => (chunkOf log id).isSome

/-- Whatever is done with a store, each handle stands for the chunk put in under it, and no handle is given out twice
as long as fewer than `UInt32.size` chunks are taken out of any one slot. -/
theorem serves_run (acts : List Act) (hremovals : ∀ i, removals i (logOf acts) < UInt32.size) :
    Serves (run acts) (logOf acts) := by
  have h : Traced (run acts) (logOf acts) := Traced.run .empty acts
  exact {
    get? := h.finds
    taken := fun id => (remove_fst _ id).trans (h.finds id)
    remove := fun id j => by rw [get?_remove, h.finds]
    modify := fun id f j => by rw [get?_modify, h.finds, h.finds]
    unchanged := fun id hnone => by
      have hget := (h.finds id).trans hnone
      exact ⟨remove_of_get?_eq_none hget, modify_of_get?_eq_none hget⟩
    fresh := h.fresh hremovals
    distinct := h.distinct hremovals
    index_lt := fun id hid => by
      obtain ⟨-, slot, hslot, -⟩ := h.handed id hid
      exact (List.getElem?_eq_some_iff.1 hslot).1
    free_nodup := h.sound.nodup
    mem_free := h.sound.mem_free
    size := h.size hremovals }

/-- The slot of a chunk that was taken out is used again; its old handle misses, and so does one never given out. -/
theorem serves_run_reuse :
    let a := Chunk.ofParts "a.rom:1" [] []
    let b := Chunk.ofParts "b.rom:1" [] []
    let acts := [.insert a, .insert b, .remove ⟨0, 0⟩, .insert b, .remove ⟨0, 0⟩, .modify ⟨0, 1⟩ Chunk.retire,
      .modify ⟨0, 0⟩ Chunk.rewind, .remove ⟨1, 0⟩, .remove ⟨7, 3⟩]
    (∀ i, removals i (logOf acts) < UInt32.size) ∧ handles (logOf acts) = [⟨0, 1⟩, ⟨1, 0⟩, ⟨0, 0⟩] ∧
      (run acts).get? ⟨0, 0⟩ = none ∧ (run acts).get? ⟨0, 1⟩ = some b.retire ∧ (run acts).free = [1] ∧
      (run acts).size = 1 ∧ Serves (run acts) (logOf acts) := by
  intro a b acts
  have hremovals : ∀ i, removals i (logOf acts) < UInt32.size := fun i =>
    Nat.lt_of_le_of_lt (removals_le_length i (logOf acts)) (by decide)
  have hserves : Serves (run acts) (logOf acts) := serves_run acts hremovals
  exact ⟨hremovals, by decide, (hserves.get? ⟨0, 0⟩).trans (by decide), (hserves.get? ⟨0, 1⟩).trans (by decide),
    by decide, hserves.size.trans (by decide), hserves⟩

end Adventure.Script.Store
