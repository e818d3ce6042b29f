import Adventure.Proofs.Script.Library
/-! Chunks come into the library with their owner, a room or the inventory, and leave it with their
owner. -/
namespace Adventure.Script

/-- The store has new chunks at the handles, and the others are as before. -/
structure Store.Grows (s s' : Store) (ids : List ChunkId) : Prop where
  sound : s'.Sound
  nodup : ids.Nodup
  unused : ∀ id ∈ ids, s.get? id = none
  stored : ∀ id ∈ ids, ∃ c, s'.get? id = some c
  kept : ∀ id ∉ ids, s'.get? id = s.get? id

theorem Store.Grows.refl {s : Store} (hs : s.Sound) : s.Grows s [] where
  sound := hs
  nodup := List.nodup_nil
  unused _ hid := nomatch hid
  stored _ hid := nomatch hid
  kept _ _ := rfl

theorem Store.Grows.trans {s s' s'' : Store} {ids ids' : List ChunkId} (h : s.Grows s' ids)
    (h' : s'.Grows s'' ids') : s.Grows s'' (ids ++ ids') := by
  -- The later handles were not in use, so they are none of the earlier ones.
  have hdisjoint : ∀ id ∈ ids, id ∉ ids' := by
    intro id hid hid'
    obtain ⟨c, hc⟩ := h.stored id hid
    rw [h'.unused id hid'] at hc
    cases hc
  refine ⟨h'.sound, ?_, ?_, ?_, ?_⟩
  · exact List.nodup_append.2 ⟨h.nodup, h'.nodup, fun a ha b hb hab => hdisjoint a ha (hab ▸ hb)⟩
  · intro id hid
    by_cases hin : id ∈ ids
    · exact h.unused id hin
    · have hid' : id ∈ ids' := (List.mem_append.1 hid).resolve_left hin
      rw [← h.kept id hin, h'.unused id hid']
  · intro id hid
    by_cases hin : id ∈ ids'
    · exact h'.stored id hin
    · have hid : id ∈ ids := (List.mem_append.1 hid).resolve_right hin
      rw [h'.kept id hin]
      exact h.stored id hid
  · intro id hid
    rw [List.mem_append, not_or] at hid
    rw [h'.kept id hid.2, h.kept id hid.1]

theorem Store.Grows.get?_of_some {s s' : Store} {ids : List ChunkId} (h : s.Grows s' ids) {id : ChunkId}
    {c : Chunk} (hc : s.get? id = some c) : s'.get? id = some c := by
  have hnot : id ∉ ids := by
    intro hid
    rw [h.unused id hid] at hc
    cases hc
  rw [h.kept id hnot, hc]

theorem Store.Sound.grows_insert {s : Store} (hs : s.Sound) (c : Chunk) :
    s.Grows (s.insert c).2 [(s.insert c).1] where
  sound := hs.insert c
  nodup := List.nodup_singleton _
  unused id hid := by
    rw [List.mem_singleton.1 hid]
    exact hs.get?_insert_fst c
  stored id hid := by
    rw [List.mem_singleton.1 hid]
    exact ⟨c, by rw [hs.get?_insert, if_pos rfl]⟩
  kept id hid := by rw [hs.get?_insert, if_neg (by simpa using hid)]

namespace Library
variable {l : Library} {defs : List Chunk} {ids : List ChunkId} {id : ChunkId} {c d : Chunk}

/-! ### Taking one chunk -/

/-- What a chunk becomes when it is taken, by what the register says about its signature. -/
def placed (d : Chunk) : Option Progress → Option Chunk
  | some .removed => none
  | some (.cached line) => some (d.seek line.toNat)
  | _ => some d

theorem placed_eq_none_iff {slot : Option Progress} : placed d slot = none ↔ slot = some .removed := by
  cases slot with
  | none => simp [placed]
  | some p => cases p <;> simp [placed]

theorem placed_cases {slot : Option Progress} (h : placed d slot = some c) :
    c = d ∨ ∃ line, slot = some (.cached line) ∧ c = d.seek line.toNat := by
  cases slot with
  | none => cases h; exact .inl rfl
  | some p =>
      cases p with
      | live _ => cases h; exact .inl rfl
      | cached line => cases h; exact .inr ⟨line, rfl, rfl⟩
      | removed => cases h

theorem fresh_of_placed {slot : Option Progress} (h : placed d slot = some c) : c.fresh = d.fresh := by
  rcases placed_cases h with rfl | ⟨line, -, rfl⟩
  · rfl
  · exact (Chunk.IsMove.seek line.toNat).fresh d

theorem adopt_of_removed (h : l.register.get? d.signature = some .removed) :
    l.adopt d = (none, l) := by
  simp [adopt, h]

theorem adopt_of_placed (h : placed d (l.register.get? d.signature) = some c) :
    l.adopt d = (some (l.store.insert c).1, {
      store := (l.store.insert c).2
      register := l.register.insert d.signature (.live (l.store.insert c).1) }) := by
  cases hslot : l.register.get? d.signature with
  | none => rw [hslot] at h; cases h; simp [adopt, hslot]
  | some p =>
      rw [hslot] at h
      cases p with
      | live _ => cases h; simp [adopt, hslot]
      | cached line =>
          cases h
          simp [adopt, hslot, (Chunk.IsMove.seek line.toNat).signature d]
      | removed => cases h

theorem adopt_grows (hs : l.store.Sound) (d : Chunk) :
    l.store.Grows (l.adopt d).2.store (l.adopt d).1.toList := by
  cases hplaced : placed d (l.register.get? d.signature) with
  | none => rw [adopt_of_removed (placed_eq_none_iff.1 hplaced)]; exact .refl hs
  | some c => rw [adopt_of_placed hplaced]; exact hs.grows_insert c

/-- A taken chunk is live and stands where it should. -/
theorem adopt_store (hs : l.store.Sound) (hc : placed d (l.register.get? d.signature) = some c) :
    ∃ id, (l.adopt d).1 = some id ∧ (l.adopt d).2.store.get? id = some c ∧
      (l.adopt d).2.register = l.register.insert d.signature (.live id) := by
  rw [adopt_of_placed hc]
  exact ⟨_, rfl, by rw [hs.get?_insert, if_pos rfl], rfl⟩

theorem adopt_register_of_ne {sig : String} (h : sig ≠ d.signature) :
    (l.adopt d).2.register.get? sig = l.register.get? sig := by
  cases hplaced : placed d (l.register.get? d.signature) with
  | none => rw [adopt_of_removed (placed_eq_none_iff.1 hplaced)]
  | some c =>
      rw [adopt_of_placed hplaced]
      exact l.register.get?_insert_of_ne _ h

theorem ne_removed_of_placed {slot : Option Progress} {d : Chunk} (h : placed d slot = some c) :
    slot ≠ some .removed := by
  rintro rfl
  cases h

/-- Chunks that come neither set nor lift a mark of removal. -/
theorem adopt_removed_iff (l : Library) (d : Chunk) (sig : String) :
    (l.adopt d).2.register.get? sig = some .removed ↔ l.register.get? sig = some .removed := by
  cases hplaced : placed d (l.register.get? d.signature) with
  | none => rw [adopt_of_removed (placed_eq_none_iff.1 hplaced)]
  | some c =>
      rw [adopt_of_placed hplaced, Table.get?_insert]
      split
      · next hsig =>
        rw [hsig]
        exact iff_of_false (by simp) (ne_removed_of_placed hplaced)
      · rfl

/-- Taking a chunk makes no line wait. -/
theorem cached_of_adopt {sig : String} {line : UInt32}
    (h : (l.adopt d).2.register.get? sig = some (.cached line)) : l.register.get? sig = some (.cached line) := by
  cases hplaced : placed d (l.register.get? d.signature) with
  | none => rwa [adopt_of_removed (placed_eq_none_iff.1 hplaced)] at h
  | some c =>
      rw [adopt_of_placed hplaced, Table.get?_insert] at h
      split at h
      · cases h
      · exact h

theorem Sound.extend (h : l.Sound defs) (hd : d.fresh = d) (hsig : d.signature ∉ defs.map Chunk.signature) :
    l.Sound (defs ++ [d]) := by
  refine h.redefine ?_ ?_ fun hc => List.mem_append_left _ (h.mem_defs hc)
  · intro e he
    rcases List.mem_append.1 he with he | he
    · exact h.fresh e he
    · rw [List.mem_singleton.1 he, hd]
  · rw [List.map_append, List.nodup_append]
    refine ⟨h.distinct, List.nodup_singleton _, fun a ha b hb hab => ?_⟩
    rw [List.map_singleton, List.mem_singleton] at hb
    exact hsig (hb ▸ hab ▸ ha)

/-- A chunk may be stored whose signature no stored chunk has. -/
theorem Sound.insert (h : l.Sound defs) (hmem : c.fresh ∈ defs) (hin : c.InRange) (hr : c.retired = false)
    (hnew : ∀ {id e}, l.store.get? id = some e → e.signature ≠ c.signature) :
    Sound {
      store := (l.store.insert c).2
      register := l.register.insert c.signature (.live (l.store.insert c).1) } defs := by
  refine ⟨h.store.insert c, h.fresh, h.distinct, ?_, ?_, ?_, ?_⟩
  · intro id e he
    rw [h.store.get?_insert] at he
    split at he
    · cases he
      exact hmem
    · exact h.mem_defs he
  · intro id e he
    rw [h.store.get?_insert] at he
    split at he
    · cases he
      exact hin
    · exact h.inRange he
  · intro id e he
    rw [h.store.get?_insert] at he
    split at he
    · next hid =>
      cases he
      rw [Table.get?_insert_self, slotOf, hr, hid]
      rfl
    · rw [l.register.get?_insert_of_ne _ (hnew he)]
      exact h.registered he
  · intro sig id hid
    rw [Table.get?_insert] at hid
    split at hid
    · next hsig =>
      cases hid
      exact ⟨c, by rw [h.store.get?_insert, if_pos rfl], hsig.symm⟩
    · obtain ⟨e, he, hes⟩ := h.live hid
      exact ⟨e, (h.store.grows_insert c).get?_of_some he, hes⟩

theorem inRange_of_placed {slot : Option Progress} (hd : d.fresh = d) (h : placed d slot = some c) :
    c.InRange := by
  rcases placed_cases h with rfl | ⟨line, -, rfl⟩
  · rw [Chunk.InRange, Chunk.position_of_fresh hd]
    exact Nat.zero_le _
  · exact Nat.min_le_right _ _

theorem retired_of_placed {slot : Option Progress} (hd : d.fresh = d) (h : placed d slot = some c) :
    c.retired = false := by
  rcases placed_cases h with rfl | ⟨line, -, rfl⟩
  · exact Chunk.retired_of_fresh hd
  · exact ((Chunk.IsMove.seek line.toNat).retired d).trans (Chunk.retired_of_fresh hd)

theorem Sound.adopt (h : l.Sound defs) (hd : d.fresh = d) (hsig : d.signature ∉ defs.map Chunk.signature) :
    (l.adopt d).2.Sound (defs ++ [d]) := by
  have hextend := h.extend hd hsig
  cases hplaced : placed d (l.register.get? d.signature) with
  | none => rwa [adopt_of_removed (placed_eq_none_iff.1 hplaced)]
  | some c =>
      have hcd : c.fresh = d := (fresh_of_placed hplaced).trans hd
      have hcs : c.signature = d.signature := hcd ▸ rfl
      rw [adopt_of_placed hplaced, ← hcs]
      refine hextend.insert ?_ (inRange_of_placed hd hplaced) (retired_of_placed hd hplaced) ?_
      · exact List.mem_append_right _ (hcd ▸ List.mem_singleton_self _)
      · intro id e he heq
        exact hsig (heq.trans hcs ▸ List.mem_map.2 ⟨e.fresh, h.mem_defs he, rfl⟩)

theorem Resolves.adopt (h : l.Resolves) (hs : l.store.Sound) (d : Chunk) : (l.adopt d).2.Resolves := by
  cases hplaced : placed d (l.register.get? d.signature) with
  | none => rwa [adopt_of_removed (placed_eq_none_iff.1 hplaced)]
  | some c =>
      rw [adopt_of_placed hplaced]
      intro sig id hlive
      rw [Table.get?_insert] at hlive
      split at hlive
      · next hsig =>
        cases hlive
        refine ⟨c, by rw [hs.get?_insert, if_pos rfl], ?_⟩
        rw [hsig, Chunk.signature_of_fresh_eq (fresh_of_placed hplaced)]
      · obtain ⟨e, he, hes⟩ := h sig id hlive
        exact ⟨e, (hs.grows_insert c).get?_of_some he, hes⟩

/-- An owner whose definitions have other signatures keeps its chunks. -/
theorem Holds.adopt (h : l.Holds ids defs) (hs : l.store.Sound)
    (hsig : d.signature ∉ defs.map Chunk.signature) : (l.adopt d).2.Holds ids defs where
  nodup := h.nodup
  stored id hid := by
    obtain ⟨c, hc, hmem⟩ := h.stored id hid
    exact ⟨c, (adopt_grows hs d).get?_of_some hc, hmem⟩
  known e he := by
    rw [adopt_register_of_ne fun heq => hsig (heq ▸ List.mem_map_of_mem he)]
    exact h.known e he

theorem Holds.nil (l : Library) : l.Holds [] [] where
  nodup := List.nodup_nil
  stored _ hid := nomatch hid
  known _ hd := nomatch hd

theorem holds_adopt (hs : l.store.Sound) (hd : d.fresh = d) :
    (l.adopt d).2.Holds (l.adopt d).1.toList [d] := by
  cases hplaced : placed d (l.register.get? d.signature) with
  | none =>
      have hrem := placed_eq_none_iff.1 hplaced
      rw [adopt_of_removed hrem]
      refine ⟨List.nodup_nil, (fun _ hid => nomatch hid), fun e he => ?_⟩
      rw [List.mem_singleton.1 he]
      exact .inl hrem
  | some c =>
      obtain ⟨id, hid, hc, hreg⟩ := adopt_store hs hplaced
      rw [hid, Option.toList_some]
      refine ⟨List.nodup_singleton id, fun j hj => ?_, fun e he => ?_⟩
      · rw [List.mem_singleton.1 hj]
        exact ⟨c, hc, by rw [fresh_of_placed hplaced, hd]; exact List.mem_singleton_self d⟩
      · rw [List.mem_singleton.1 he, hreg, Table.get?_insert_self]
        exact .inr ⟨id, List.mem_singleton_self id, rfl⟩

theorem Holds.append {ids' : List ChunkId} {defs' : List Chunk} (h : l.Holds ids defs)
    (h' : l.Holds ids' defs') (hdisjoint : ∀ id ∈ ids, id ∉ ids') :
    l.Holds (ids ++ ids') (defs ++ defs') where
  nodup := List.nodup_append.2 ⟨h.nodup, h'.nodup, fun _ ha _ hb hab => hdisjoint _ ha (hab ▸ hb)⟩
  stored id hid := by
    rcases List.mem_append.1 hid with hid | hid
    · obtain ⟨c, hc, hmem⟩ := h.stored id hid
      exact ⟨c, hc, List.mem_append_left _ hmem⟩
    · obtain ⟨c, hc, hmem⟩ := h'.stored id hid
      exact ⟨c, hc, List.mem_append_right _ hmem⟩
  known d hd := by
    rcases List.mem_append.1 hd with hd | hd
    · rcases h.known d hd with hrem | ⟨id, hid, hlive⟩
      · exact .inl hrem
      · exact .inr ⟨id, List.mem_append_left _ hid, hlive⟩
    · rcases h'.known d hd with hrem | ⟨id, hid, hlive⟩
      · exact .inl hrem
      · exact .inr ⟨id, List.mem_append_right _ hid, hlive⟩

/-! ### Taking many chunks -/

theorem adoptAll_append (cs ds : List Chunk) (l : Library) :
    adoptAll (cs ++ ds) l =
      ((adoptAll cs l).1 ++ (adoptAll ds (adoptAll cs l).2).1, (adoptAll ds (adoptAll cs l).2).2) := by
  induction cs generalizing l with
  | nil => rfl
  | cons c cs ih => simp only [List.cons_append, adoptAll, ih, List.append_assoc]

theorem adoptAll_grows (cs : List Chunk) (hs : l.store.Sound) :
    l.store.Grows (adoptAll cs l).2.store (adoptAll cs l).1 := by
  induction cs generalizing l with
  | nil => exact .refl hs
  | cons c cs ih =>
      have hgrows := adopt_grows hs c
      exact hgrows.trans (ih hgrows.sound)

theorem adoptAll_register_of_ne {cs : List Chunk} {sig : String} (h : sig ∉ cs.map Chunk.signature) :
    (adoptAll cs l).2.register.get? sig = l.register.get? sig := by
  induction cs generalizing l with
  | nil => rfl
  | cons c cs ih =>
      rw [List.map_cons, List.mem_cons, not_or] at h
      rw [adoptAll, ih h.2, adopt_register_of_ne h.1]

theorem adoptAll_removed_iff (cs : List Chunk) (l : Library) (sig : String) :
    (adoptAll cs l).2.register.get? sig = some .removed ↔ l.register.get? sig = some .removed := by
  induction cs generalizing l with
  | nil => rfl
  | cons d cs ih => exact (ih _).trans (adopt_removed_iff l d sig)

theorem Sound.adoptAll {cs : List Chunk} (h : l.Sound defs) (hcs : ∀ d ∈ cs, d.fresh = d)
    (hnodup : ((defs ++ cs).map Chunk.signature).Nodup) : (adoptAll cs l).2.Sound (defs ++ cs) := by
  induction cs generalizing l defs with
  | nil => rwa [List.append_nil]
  | cons d cs ih =>
      rw [List.map_append, List.map_cons] at hnodup
      have hd : d.signature ∉ defs.map Chunk.signature := by
        intro hmem
        exact (List.nodup_append.1 hnodup).2.2 _ hmem _ List.mem_cons_self rfl
      rw [List.append_cons]
      refine ih (h.adopt (hcs d List.mem_cons_self) hd) (fun e he => hcs e (List.mem_cons_of_mem d he)) ?_
      simpa using hnodup

theorem Resolves.adoptAll (h : l.Resolves) (hs : l.store.Sound) (cs : List Chunk) :
    (adoptAll cs l).2.Resolves := by
  induction cs generalizing l with
  | nil => exact h
  | cons d cs ih => exact ih (h.adopt hs d) (adopt_grows hs d).sound

/-- A taken chunk is stored as it was read, or at the line that waited for it. -/
theorem stored_of_adoptAll (hs : l.store.Sound) (cs : List Chunk) : ∀ id ∈ (adoptAll cs l).1,
    ∃ d ∈ cs, ∃ c, (adoptAll cs l).2.store.get? id = some c ∧
      (c = d ∨ ∃ line, l.register.get? d.signature = some (.cached line) ∧ c = d.seek line.toNat) := by
  induction cs generalizing l with
  | nil => exact fun _ hid => nomatch hid
  | cons d cs ih =>
      intro id hid
      have hgrows := adopt_grows hs d
      simp only [adoptAll, List.mem_append] at hid ⊢
      rcases hid with hid | hid
      · cases hplaced : placed d (l.register.get? d.signature) with
        | none =>
            rw [adopt_of_removed (placed_eq_none_iff.1 hplaced)] at hid
            cases hid
        | some c =>
            obtain ⟨id', hid', hc, -⟩ := adopt_store hs hplaced
            rw [hid', Option.toList_some, List.mem_singleton] at hid
            exact ⟨d, List.mem_cons_self, c, (adoptAll_grows cs hgrows.sound).get?_of_some (hid ▸ hc),
              placed_cases hplaced⟩
      · obtain ⟨e, he, c, hstored, hc⟩ := ih hgrows.sound id hid
        refine ⟨e, List.mem_cons_of_mem d he, c, hstored, hc.imp_right ?_⟩
        rintro ⟨line, hline, hc⟩
        exact ⟨line, cached_of_adopt hline, hc⟩

theorem Holds.adoptAll {cs : List Chunk} (h : l.Holds ids defs) (hs : l.store.Sound)
    (hdisjoint : ∀ d ∈ cs, d.signature ∉ defs.map Chunk.signature) :
    (adoptAll cs l).2.Holds ids defs := by
  induction cs generalizing l with
  | nil => exact h
  | cons d cs ih =>
      have hd := hdisjoint d List.mem_cons_self
      exact ih (h.adopt hs hd) (adopt_grows hs d).sound fun e he =>
        hdisjoint e (List.mem_cons_of_mem d he)

/-- The owner of the chunks holds all of them. -/
theorem holds_adoptAll {cs : List Chunk} (hs : l.store.Sound) (hcs : ∀ d ∈ cs, d.fresh = d)
    (hnodup : (cs.map Chunk.signature).Nodup) : (adoptAll cs l).2.Holds (adoptAll cs l).1 cs := by
  induction cs generalizing l with
  | nil => exact .nil l
  | cons d cs ih =>
      obtain ⟨hd, hnodup⟩ := List.nodup_cons.1 hnodup
      have hgrows := adopt_grows hs d
      have hlater := adoptAll_grows cs hgrows.sound
      have hfirst : (adoptAll cs (l.adopt d).2).2.Holds (l.adopt d).1.toList [d] := by
        refine (holds_adopt hs (hcs d List.mem_cons_self)).adoptAll hgrows.sound fun e he hmem => ?_
        exact hd (List.mem_singleton.1 hmem ▸ List.mem_map_of_mem he)
      refine hfirst.append (ih hgrows.sound (fun e he => hcs e (List.mem_cons_of_mem d he)) hnodup) ?_
      intro id hid hid'
      obtain ⟨c, hc⟩ := hgrows.stored id hid
      rw [hlater.unused id hid'] at hc
      cases hc

/-! ### Giving back -/

theorem release_store (l : Library) (id : ChunkId) : (l.release id).store = (l.store.remove id).2 := by
  unfold release
  split
  · next h =>
    have hnone : l.store.get? id = none := by rw [← Store.remove_fst, h]
    rw [Store.remove_of_get?_eq_none hnone]
  · next h => split <;> rw [h]

theorem release_register (l : Library) (id : ChunkId) (sig : String) :
    (l.release id).register.get? sig =
      if l.register.get? sig = some (.live id) ∧ (l.store.get? id).map Chunk.signature = some sig then none
      else l.register.get? sig := by
  unfold release
  split
  · next h =>
    have hnone : l.store.get? id = none := by rw [← Store.remove_fst, h]
    simp [hnone]
  · next c _ h =>
    have hsome : l.store.get? id = some c := by rw [← Store.remove_fst, h]
    rw [hsome, Option.map_some]
    split
    · next hlive =>
      rw [Table.get?_erase]
      by_cases hsig : sig = c.signature
      · simp [hsig, hlive]
      · simp [hsig, Ne.symm hsig]
    · next hlive =>
      by_cases hsig : sig = c.signature
      · simp [hsig, hlive]
      · simp [Ne.symm hsig]

theorem Resolves.release (h : l.Resolves) (id : ChunkId) : (l.release id).Resolves := by
  intro sig j hj
  rw [release_register] at hj
  split at hj
  · cases hj
  · next hkept =>
    obtain ⟨c, hc, hsig⟩ := h sig j hj
    have hji : j ≠ id := by
      rintro rfl
      exact hkept ⟨hj, by rw [hc, Option.map_some, hsig]⟩
    exact ⟨c, by rw [release_store, Store.get?_remove, if_neg hji, hc], hsig⟩

theorem Sound.release (h : l.Sound defs) (id : ChunkId) : (l.release id).Sound defs := by
  have hget : ∀ j, (l.release id).store.get? j = if j = id then none else l.store.get? j := by
    intro j
    rw [release_store, Store.get?_remove]
  refine ⟨release_store l id ▸ h.store.remove id, h.fresh, h.distinct, ?_, ?_, ?_, ?_⟩
  · intro j c hc
    rw [hget] at hc
    split at hc
    · cases hc
    · exact h.mem_defs hc
  · intro j c hc
    rw [hget] at hc
    split at hc
    · cases hc
    · exact h.inRange hc
  · intro j c hc
    rw [hget] at hc
    split at hc
    · cases hc
    · next hj =>
      have hslot := h.registered hc
      rw [release_register, if_neg, hslot]
      rintro ⟨hlive, -⟩
      rw [hslot, slotOf] at hlive
      split at hlive <;> cases hlive
      exact hj rfl
  · intro sig j hj
    exact Resolves.release (fun _ _ => h.live) id sig j hj

theorem Holds.release (h : l.Holds ids defs) (hid : id ∉ ids) : (l.release id).Holds ids defs where
  nodup := h.nodup
  stored j hj := by
    obtain ⟨c, hc, hmem⟩ := h.stored j hj
    have hji : j ≠ id := fun heq => hid (heq ▸ hj)
    exact ⟨c, by rw [release_store, Store.get?_remove, if_neg hji, hc], hmem⟩
  known d hd := by
    rw [release_register]
    rcases h.known d hd with hrem | ⟨j, hj, hlive⟩
    · rw [if_neg (by simp [hrem]), hrem]
      exact .inl rfl
    · refine .inr ⟨j, hj, ?_⟩
      have hji : j ≠ id := fun heq => hid (heq ▸ hj)
      rw [if_neg (by simp [hlive, hji]), hlive]

theorem releaseAll_append (l : Library) (ids ids' : List ChunkId) :
    l.releaseAll (ids ++ ids') = (l.releaseAll ids).releaseAll ids' :=
  List.foldl_append

theorem releaseAll_store (l : Library) (ids : List ChunkId) (j : ChunkId) :
    (l.releaseAll ids).store.get? j = if j ∈ ids then none else l.store.get? j := by
  induction ids generalizing l with
  | nil => rfl
  | cons id ids ih =>
      rw [releaseAll, List.foldl_cons, ← releaseAll, ih, release_store, Store.get?_remove]
      by_cases hj : j = id <;> simp [hj]

theorem releaseAll_store_sound (h : l.store.Sound) (ids : List ChunkId) : (l.releaseAll ids).store.Sound := by
  induction ids generalizing l with
  | nil => exact h
  | cons id ids ih => exact ih (release_store l id ▸ h.remove id)

theorem Sound.releaseAll (h : l.Sound defs) (ids : List ChunkId) : (l.releaseAll ids).Sound defs := by
  induction ids generalizing l with
  | nil => exact h
  | cons id ids ih => exact ih (h.release id)

theorem Resolves.releaseAll (h : l.Resolves) (ids : List ChunkId) : (l.releaseAll ids).Resolves := by
  induction ids generalizing l with
  | nil => exact h
  | cons id ids ih => exact ih (h.release id)

theorem Holds.releaseAll {gone : List ChunkId} (h : l.Holds ids defs) (hdisjoint : ∀ id ∈ gone, id ∉ ids) :
    (l.releaseAll gone).Holds ids defs := by
  induction gone generalizing l with
  | nil => exact h
  | cons id gone ih =>
      exact ih (h.release (hdisjoint id List.mem_cons_self)) fun j hj =>
        hdisjoint j (List.mem_cons_of_mem id hj)

/-- A mark of removal outlives the owner of the chunk. -/
theorem releaseAll_register_of_removed {sig : String} (h : l.register.get? sig = some .removed)
    (ids : List ChunkId) : (l.releaseAll ids).register.get? sig = some .removed := by
  induction ids generalizing l with
  | nil => exact h
  | cons id ids ih => exact ih (by rw [release_register, if_neg (by simp [h]), h])

end Library
end Adventure.Script
