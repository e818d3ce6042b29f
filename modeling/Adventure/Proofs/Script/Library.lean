import Mathlib.Data.List.Nodup
import Adventure.Script.Playback
import Adventure.Proofs.Script.Chunk
import Adventure.Proofs.Script.Store
import Adventure.Proofs.Table
/-! The library of scripts. Its store and its register speak of the same chunks, each of them read from
a text, and every operation keeps it so. An owner of chunks holds their handles; what happens to the
chunks of one owner leaves those of another alone. -/
namespace Adventure.Script.Library

/-- What the register says about a stored chunk. -/
def slotOf (id : ChunkId) (c : Chunk) : Progress :=
  if c.retired then .removed else .live id

/-- Every chunk in the store is one of `defs`, at a place within it, and the register knows its handle
or that it is retired; every handle in the register is one of a stored chunk. -/
structure Sound (l : Library) (defs : List Chunk) : Prop where
  store : l.store.Sound
  fresh : ∀ d ∈ defs, d.fresh = d
  distinct : (defs.map Chunk.signature).Nodup
  mem_defs : ∀ {id c}, l.store.get? id = some c → c.fresh ∈ defs
  inRange : ∀ {id c}, l.store.get? id = some c → c.InRange
  registered : ∀ {id c}, l.store.get? id = some c →
    l.register.get? c.signature = some (slotOf id c)
  live : ∀ {sig id}, l.register.get? sig = some (.live id) →
    ∃ c, l.store.get? id = some c ∧ c.signature = sig

/-- The handles are those of the chunks among `defs` that may still run, or could until they were
retired. -/
structure Holds (l : Library) (ids : List ChunkId) (defs : List Chunk) : Prop where
  nodup : ids.Nodup
  stored : ∀ id ∈ ids, ∃ c, l.store.get? id = some c ∧ c.fresh ∈ defs
  known : ∀ d ∈ defs, l.register.get? d.signature = some .removed ∨
    ∃ id ∈ ids, l.register.get? d.signature = some (.live id)

/-- What the register calls live is stored, under the same signature. -/
def Resolves (l : Library) : Prop :=
  ∀ sig id, l.register.get? sig = some (.live id) → ∃ c, l.store.get? id = some c ∧ c.signature = sig

/-- The library with a position changed. -/
def move (l : Library) (id : ChunkId) (f : Chunk → Chunk) : Library :=
  { l with store := l.store.modify id f }

variable {l : Library} {defs : List Chunk} {ids : List ChunkId} {id : ChunkId} {c : Chunk}

/-! ### Sound libraries -/

/-- A line is cached or marks a removed chunk; it is never a handle. -/
theorem ofLine_ne_live (line : UInt32) (id : ChunkId) : Progress.ofLine line ≠ .live id := by
  unfold Progress.ofLine
  split <;> exact nofun

theorem restoreLines_ne_live (l : Library) (lines : List (String × UInt32)) (sig : String) (id : ChunkId) :
    (l.restoreLines lines).register.get? sig ≠ some (.live id) := by
  intro h
  rw [restoreLines, Table.get?_ofList] at h
  obtain ⟨before, after, hes, -⟩ := List.lookup_eq_some_iff.1 h
  have hmem : (sig, Progress.live id) ∈ before ++ (sig, Progress.live id) :: after :=
    List.mem_append_right _ List.mem_cons_self
  rw [← hes, List.mem_reverse, List.mem_map] at hmem
  obtain ⟨e, -, he⟩ := hmem
  exact absurd (Prod.mk.inj he).2 (ofLine_ne_live e.2 id)

theorem Sound.restoreLines (hs : l.store.Sound) (hempty : ∀ id, l.store.get? id = none)
    (lines : List (String × UInt32)) : (l.restoreLines lines).Sound [] where
  store := hs
  fresh _ hd := nomatch hd
  distinct := List.nodup_nil
  mem_defs h := nomatch (hempty _).symm.trans h
  inRange h := nomatch (hempty _).symm.trans h
  registered h := nomatch (hempty _).symm.trans h
  live h := absurd h (restoreLines_ne_live l lines _ _)

theorem Sound.ofLines (lines : List (String × UInt32)) : (empty.restoreLines lines).Sound [] :=
  .restoreLines Store.Sound.empty Store.get?_empty lines

theorem Sound.redefine {defs' : List Chunk} (h : l.Sound defs) (hfresh : ∀ d ∈ defs', d.fresh = d)
    (hnodup : (defs'.map Chunk.signature).Nodup)
    (hmem : ∀ {id c}, l.store.get? id = some c → c.fresh ∈ defs') : l.Sound defs' where
  store := h.store
  fresh := hfresh
  distinct := hnodup
  mem_defs := hmem
  inRange := h.inRange
  registered := h.registered
  live := h.live

theorem Sound.perm {defs' : List Chunk} (h : l.Sound defs) (hp : defs.Perm defs') : l.Sound defs' :=
  h.redefine (fun d hd => h.fresh d (hp.mem_iff.2 hd)) ((hp.map _).nodup_iff.1 h.distinct)
    fun hc => hp.mem_iff.1 (h.mem_defs hc)

theorem Sound.sublist {defs' : List Chunk} (h : l.Sound defs) (hs : defs'.Sublist defs)
    (hmem : ∀ {id c}, l.store.get? id = some c → c.fresh ∈ defs') : l.Sound defs' :=
  h.redefine (fun d hd => h.fresh d (hs.subset hd)) (h.distinct.sublist (hs.map _)) hmem

theorem Sound.stored_of_live (h : l.Sound defs) {sig : String}
    (hlive : l.register.get? sig = some (.live id)) :
    ∃ c, l.store.get? id = some c ∧ c.signature = sig ∧ c.retired = false := by
  obtain ⟨c, hc, hsig⟩ := h.live hlive
  refine ⟨c, hc, hsig, ?_⟩
  have hslot := h.registered hc
  rw [hsig, hlive, slotOf] at hslot
  cases hr : c.retired
  · rfl
  · rw [hr] at hslot; cases hslot

theorem Sound.live_of_stored (h : l.Sound defs) (hc : l.store.get? id = some c)
    (hr : c.retired = false) : l.register.get? c.signature = some (.live id) := by
  have hslot := h.registered hc
  rwa [slotOf, hr] at hslot

theorem live?_eq_some_iff {sig : String} :
    l.live? sig = some id ↔ l.register.get? sig = some (.live id) := by
  unfold live?
  constructor
  · intro h
    split at h
    · next hslot => cases h; exact hslot
    · cases h
  · intro h
    simp [h]

/-! ### Moving and finishing -/

/-- Another handle leads to a chunk of the same signature only if that one is retired. -/
theorem Sound.retired_of_ne (h : l.Sound defs) {j : ChunkId} {d : Chunk}
    (hc : l.store.get? id = some c) (hd : l.store.get? j = some d) (hsig : d.signature = c.signature)
    (hj : j ≠ id) : d.retired = true := by
  by_contra hr
  have hlive := h.live_of_stored hd (Bool.eq_false_iff.2 hr)
  have hslot := h.registered hc
  rw [← hsig, hlive, slotOf] at hslot
  split at hslot <;> cases hslot
  exact hj rfl

/-- A stored chunk may be moved or retired, if the register says so. -/
theorem Sound.replace (h : l.Sound defs) (hc : l.store.get? id = some c) {c' : Chunk} {l' : Library}
    (hfresh : c'.fresh = c.fresh) (hin : c'.InRange) (hretired : c.retired = true → c'.retired = true)
    (hstore : l'.store = l.store.modify id fun _ => c')
    (hregister : ∀ sig, l'.register.get? sig =
      if sig = c.signature then some (slotOf id c') else l.register.get? sig) : l'.Sound defs := by
  have hsig : c'.signature = c.signature := Chunk.signature_of_fresh_eq hfresh
  have hget : ∀ j, l'.store.get? j = if j = id then some c' else l.store.get? j := by
    intro j
    rw [hstore, Store.get?_modify, hc, Option.map_some]
  refine ⟨hstore ▸ h.store.modify id _, h.fresh, h.distinct, ?_, ?_, ?_, ?_⟩
  · intro j d hd
    rw [hget] at hd
    split at hd
    · cases hd
      exact hfresh ▸ h.mem_defs hc
    · exact h.mem_defs hd
  · intro j d hd
    rw [hget] at hd
    split at hd
    · cases hd
      exact hin
    · exact h.inRange hd
  · intro j d hd
    rw [hget] at hd
    rw [hregister]
    split at hd
    · next hj =>
      cases hd
      rw [if_pos hsig, hj]
    · next hj =>
      split
      · next hds =>
        -- Two handles of one signature: the register leads to neither, for both chunks are retired.
        have hd' := h.retired_of_ne hc hd hds hj
        have hc' := h.retired_of_ne hd hc hds.symm (Ne.symm hj)
        rw [slotOf, slotOf, hd', hretired hc', if_pos rfl, if_pos rfl]
      · exact h.registered hd
  · intro sig j hj
    rw [hregister] at hj
    split at hj
    · next hs =>
      have hji : j = id := by
        rw [slotOf, Option.some.injEq] at hj
        split at hj <;> cases hj
        rfl
      exact ⟨c', by rw [hget, if_pos hji], hsig.trans hs.symm⟩
    · next hs =>
      obtain ⟨d, hd, hds⟩ := h.live hj
      have hji : j ≠ id := by
        rintro rfl
        rw [hc] at hd
        cases hd
        exact hs hds.symm
      exact ⟨d, by rw [hget, if_neg hji, hd], hds⟩

theorem Sound.move (h : l.Sound defs) (id : ChunkId) {f : Chunk → Chunk} (hf : Chunk.IsMove f) :
    (l.move id f).Sound defs := by
  cases hc : l.store.get? id with
  | none =>
      have hmove : l.move id f = l := by rw [Library.move, Store.modify_of_get?_eq_none hc]
      rwa [hmove]
  | some c =>
      refine h.replace hc (hf.fresh c) (hf.inRange c (h.inRange hc)) (fun hr => (hf.retired c).trans hr) ?_ ?_
      · rw [Library.move, Store.modify_of_get?_eq_some hc, Store.modify_of_get?_eq_some hc]
      · intro sig
        split
        · next hsig =>
          rw [slotOf, hf.retired, hsig]
          exact h.registered hc
        · rfl

theorem retire_of_get?_eq_some (hc : l.store.get? id = some c) :
    l.retire id = {
      store := l.store.modify id Chunk.retire
      register := l.register.insert c.signature .removed } := by
  simp [retire, hc]

theorem finish_of_get?_eq_none (hc : l.store.get? id = none) : l.finish id = l := by
  simp [finish, hc]

theorem finish_store (l : Library) (id : ChunkId) :
    (l.finish id).store = l.store.modify id Chunk.finish := by
  cases hc : l.store.get? id with
  | none => rw [finish_of_get?_eq_none hc, Store.modify_of_get?_eq_none hc]
  | some c =>
      rw [Store.modify_of_get?_eq_some hc]
      by_cases honce : c.once
      · simp [finish, hc, honce, retire_of_get?_eq_some hc, Store.modify_of_get?_eq_some hc, Chunk.finish]
      · simp [finish, hc, honce, Store.modify_of_get?_eq_some hc, Chunk.finish]

theorem finish_register (l : Library) (id : ChunkId) :
    (l.finish id).register =
      match l.store.get? id with
      | some c => if c.once then l.register.insert c.signature .removed else l.register
      | none => l.register := by
  cases hc : l.store.get? id with
  | none => rw [finish_of_get?_eq_none hc]
  | some c =>
      by_cases honce : c.once
      · simp [finish, hc, honce, retire_of_get?_eq_some hc]
      · simp [finish, hc, honce]

theorem Sound.finish (h : l.Sound defs) (id : ChunkId) : (l.finish id).Sound defs := by
  cases hc : l.store.get? id with
  | none => rwa [finish_of_get?_eq_none hc]
  | some c =>
      by_cases honce : c.once
      · have hretire : c.retire.fresh = c.fresh := rfl
        refine h.replace hc hretire (Nat.le_refl _) (fun _ => rfl) ?_ fun sig => ?_
        · rw [finish_store, Store.modify_of_get?_eq_some hc, Store.modify_of_get?_eq_some hc, Chunk.finish,
            if_pos honce]
        · simp only [finish_register, hc, honce, if_true, Table.get?_insert]
          rfl
      · have hfinish : l.finish id = l.move id Chunk.rewind := by
          simp [Library.finish, hc, honce, Library.move]
        rw [hfinish]
        exact h.move id Chunk.IsMove.rewind

/-! ### Playing -/

/-- What playing does to a library: chunks move, and some are retired. -/
structure Plays (l l' : Library) : Prop where
  chunks : ∀ id, (l'.store.get? id).map Chunk.fresh = (l.store.get? id).map Chunk.fresh
  slots : ∀ sig, l'.register.get? sig = l.register.get? sig ∨ l'.register.get? sig = some .removed

theorem Plays.refl (l : Library) : Plays l l :=
  ⟨fun _ => rfl, fun _ => .inl rfl⟩

theorem Plays.trans {l' l'' : Library} (h : Plays l l') (h' : Plays l' l'') : Plays l l'' where
  chunks id := (h'.chunks id).trans (h.chunks id)
  slots sig := by
    rcases h'.slots sig with heq | hrem
    · rw [heq]; exact h.slots sig
    · exact .inr hrem

theorem Plays.move (l : Library) (id : ChunkId) {f : Chunk → Chunk} (hf : Chunk.IsMove f) :
    Plays l (l.move id f) where
  chunks j := by
    rw [Library.move, Store.get?_modify]
    split
    · next hj => subst hj; cases l.store.get? j <;> simp [hf.fresh]
    · rfl
  slots _ := .inl rfl

theorem Plays.finish (l : Library) (id : ChunkId) : Plays l (l.finish id) where
  chunks j := by
    rw [finish_store, Store.get?_modify]
    split
    · next hj => subst hj; cases l.store.get? j <;> simp
    · rfl
  slots sig := by
    rw [finish_register]
    split
    · split
      · rw [Table.get?_insert]
        split
        · exact .inr rfl
        · exact .inl rfl
      · exact .inl rfl
    · exact .inl rfl

theorem Plays.stored {l' : Library} (h : Plays l l') (hc : l.store.get? id = some c) :
    ∃ c', l'.store.get? id = some c' ∧ c'.fresh = c.fresh := by
  have hchunks := h.chunks id
  rw [hc, Option.map_some] at hchunks
  exact Option.map_eq_some_iff.1 hchunks

theorem Plays.stored_before {l' : Library} (h : Plays l l') {c' : Chunk}
    (hc' : l'.store.get? id = some c') : ∃ c, l.store.get? id = some c ∧ c.fresh = c'.fresh := by
  have hchunks := h.chunks id
  rw [hc', Option.map_some] at hchunks
  exact Option.map_eq_some_iff.1 hchunks.symm

theorem Resolves.plays {l' : Library} (h : l.Resolves) (hp : Plays l l') : l'.Resolves := by
  intro sig id hlive
  rcases hp.slots sig with heq | hrem
  · obtain ⟨c, hc, hsig⟩ := h sig id (heq ▸ hlive)
    obtain ⟨c', hc', hfresh⟩ := hp.stored hc
    exact ⟨c', hc', (Chunk.signature_of_fresh_eq hfresh).trans hsig⟩
  · rw [hrem] at hlive
    cases hlive

theorem Plays.removed {l' : Library} (h : Plays l l') {sig : String}
    (hslot : l.register.get? sig = some .removed) : l'.register.get? sig = some .removed :=
  (h.slots sig).elim (fun heq => heq.trans hslot) id

theorem Holds.plays {l' : Library} (h : l.Holds ids defs) (hp : Plays l l') : l'.Holds ids defs where
  nodup := h.nodup
  stored id hid := by
    obtain ⟨c, hc, hmem⟩ := h.stored id hid
    obtain ⟨c', hc', hfresh⟩ := hp.stored hc
    exact ⟨c', hc', hfresh ▸ hmem⟩
  known d hd := by
    rcases hp.slots d.signature with heq | hrem
    · rw [heq]; exact h.known d hd
    · exact .inl hrem

end Adventure.Script.Library
