import Adventure.Proofs.Script.Playing
import Adventure.Proofs.Session.Change
/-! Who owns the stored chunks. Each belongs to the inventory or to the room, and comes and goes with its
owner. -/
namespace Adventure

open Script (Chunk ChunkId Library Playback)

/-! ### Handles of stored chunks -/

namespace Script.Library
variable {l : Library} {gone kept ids : List ChunkId} {cs : List Chunk} {id : ChunkId} {c : Chunk}

/-- The stored chunks are just those of the handles. -/
structure Stores (l : Library) (ids : List ChunkId) : Prop where
  sound : l.store.Sound
  nodup : ids.Nodup
  stored_iff : ∀ id, (∃ c, l.store.get? id = some c) ↔ id ∈ ids

theorem Stores.perm (h : l.Stores ids) {ids' : List ChunkId} (hp : ids.Perm ids') : l.Stores ids' where
  sound := h.sound
  nodup := hp.nodup_iff.1 h.nodup
  stored_iff id := (h.stored_iff id).trans hp.mem_iff

theorem Stores.releaseAll (h : l.Stores (gone ++ kept)) : (l.releaseAll gone).Stores kept := by
  obtain ⟨-, hnodup, hdisjoint⟩ := List.nodup_append.1 h.nodup
  refine ⟨releaseAll_store_sound h.sound gone, hnodup, fun id => ?_⟩
  rw [releaseAll_store]
  by_cases hgone : id ∈ gone
  · rw [if_pos hgone]
    refine ⟨fun hstored => ?_, fun hkept => absurd rfl (hdisjoint id hgone id hkept)⟩
    obtain ⟨_, hc⟩ := hstored
    cases hc
  · rw [if_neg hgone, h.stored_iff, List.mem_append]
    exact or_iff_right hgone

theorem Stores.adoptAll (h : l.Stores kept) (cs : List Chunk) :
    (adoptAll cs l).2.Stores ((adoptAll cs l).1 ++ kept) := by
  have hgrows := adoptAll_grows cs h.sound
  refine ⟨hgrows.sound, List.nodup_append.2 ⟨hgrows.nodup, h.nodup, ?_⟩, fun id => ?_⟩
  · intro id hid id' hid' heq
    obtain ⟨c, hc⟩ := (h.stored_iff id).2 (heq ▸ hid')
    rw [hgrows.unused id hid] at hc
    cases hc
  · rw [List.mem_append, ← h.stored_iff]
    by_cases hid : id ∈ (Library.adoptAll cs l).1
    · exact ⟨fun _ => .inl hid, fun _ => hgrows.stored id hid⟩
    · rw [hgrows.kept id hid]
      exact (or_iff_right hid).symm

theorem Stores.plays {l' : Library} (h : l.Stores ids) (hs : l'.store.Sound) (hp : Plays l l') :
    l'.Stores ids where
  sound := hs
  nodup := h.nodup
  stored_iff id := by
    rw [← h.stored_iff]
    exact ⟨fun ⟨_, hc⟩ => (hp.stored_before hc).imp fun _ h => h.1, fun ⟨_, hc⟩ =>
      (hp.stored hc).imp fun _ h => h.1⟩

theorem Stores.get?_exchange (h : l.Stores (gone ++ kept)) (cs : List Chunk) (hid : id ∈ kept) :
    (Library.adoptAll cs (l.releaseAll gone)).2.store.get? id = l.store.get? id := by
  have hgone : id ∉ gone := fun hgone => (List.nodup_append.1 h.nodup).2.2 id hgone id hid rfl
  obtain ⟨c, hc⟩ := (h.stored_iff id).2 (List.mem_append_right gone hid)
  have hreleased : (l.releaseAll gone).store.get? id = some c := by rw [releaseAll_store, if_neg hgone, hc]
  rw [hc]
  exact (adoptAll_grows cs (releaseAll_store_sound h.sound gone)).get?_of_some hreleased

/-- A chunk that is stored after an exchange was taken, or it stayed. -/
theorem taken_or_kept (hs : l.store.Sound)
    (hc : (adoptAll cs (l.releaseAll gone)).2.store.get? id = some c) :
    (id ∈ (adoptAll cs (l.releaseAll gone)).1 ∧ ∃ d ∈ cs, c = d ∨
        ∃ line, (l.releaseAll gone).register.get? d.signature = some (.cached line) ∧ c = d.seek line.toNat) ∨
      id ∉ (adoptAll cs (l.releaseAll gone)).1 ∧ l.store.get? id = some c ∧ id ∉ gone := by
  have hs' := releaseAll_store_sound hs gone
  by_cases hid : id ∈ (adoptAll cs (l.releaseAll gone)).1
  · obtain ⟨d, hd, c', hstored, hcd⟩ := stored_of_adoptAll hs' cs id hid
    cases hstored.symm.trans hc
    exact .inl ⟨hid, d, hd, hcd⟩
  · rw [(adoptAll_grows cs hs').kept id hid, releaseAll_store] at hc
    split at hc
    · cases hc
    · next hgone => exact .inr ⟨hid, hc, hgone⟩

/-- Where no line waits, a taken chunk is as it was read. -/
theorem stored_of_exchange (hs : l.store.Sound) (hwait : l.NoneWaiting)
    (hc : (adoptAll cs (l.releaseAll gone)).2.store.get? id = some c) :
    id ∈ (adoptAll cs (l.releaseAll gone)).1 ∧ c ∈ cs ∨
      id ∉ (adoptAll cs (l.releaseAll gone)).1 ∧ l.store.get? id = some c ∧ id ∉ gone := by
  refine (taken_or_kept hs hc).imp_left ?_
  rintro ⟨hid, d, hd, rfl | ⟨line, hline, -⟩⟩
  · exact ⟨hid, hd⟩
  · exact absurd hline (hwait.releaseAll gone _ line)

/-- A taken chunk may have been moved, but it is not retired. -/
theorem fresh_of_exchange (hs : l.store.Sound) (hfresh : ∀ d ∈ cs, d.fresh = d)
    (hc : (adoptAll cs (l.releaseAll gone)).2.store.get? id = some c) :
    (id ∈ (adoptAll cs (l.releaseAll gone)).1 ∧ c.fresh ∈ cs ∧ c.retired = false) ∨
      id ∉ (adoptAll cs (l.releaseAll gone)).1 ∧ l.store.get? id = some c ∧ id ∉ gone := by
  refine (taken_or_kept hs hc).imp_left ?_
  rintro ⟨hid, d, hd, rfl | ⟨line, -, rfl⟩⟩
  · rw [hfresh c hd]
    exact ⟨hid, hd, Chunk.retired_of_fresh (hfresh c hd)⟩
  · have hseek := Chunk.IsMove.seek line.toNat
    rw [hseek.fresh, hfresh d hd, hseek.retired]
    exact ⟨hid, hd, Chunk.retired_of_fresh (hfresh d hd)⟩

end Script.Library

namespace Session
variable {P : UInt16 → Prop} {s s' : Session}

/-! ### Owners -/

/-- Every stored chunk belongs to the inventory or to the room. -/
def Owned (s : Session) : Prop :=
  s.library.Stores (s.inventory.chunkIds ++ s.roomIds)

theorem owned_start (config : SessionConfig) (resources : Resources) (host : Host) :
    (start config resources host).Owned :=
  ⟨Script.Store.Sound.empty, List.nodup_nil, fun id => by
    simp [start, library, Library.empty, Container.empty, Container.chunkIds, roomIds]⟩

theorem Owned.congr (h : s.Owned) (hlibrary : s'.library = s.library)
    (hinventory : s'.inventory = s.inventory) (hroom : s'.roomIds = s.roomIds) : s'.Owned := by
  rw [Owned, hlibrary, hinventory, hroom]
  exact h

theorem Restocked.roomIds_eq (hs : s.Restocked s') : s'.roomIds = s.roomIds := by
  rw [roomIds, roomIds, hs.room]

theorem Owned.restocked (h : s.Owned) (hs : s.Restocked s') : s'.Owned := by
  obtain ⟨hids, hlib⟩ := Prod.mk.inj hs.chunks
  rw [Owned, hids, hlib, hs.roomIds_eq]
  exact h.releaseAll.adoptAll _

theorem Owned.arrives {id : UInt16} (h : s.Owned) (hs : s.Arrives id s') : s'.Owned := by
  obtain ⟨hids, hlib⟩ := Prod.mk.inj hs.chunks
  rw [Owned, hids, hlib, hs.inventory]
  exact ((h.perm List.perm_append_comm).releaseAll.adoptAll _).perm List.perm_append_comm

/-- On the way to a saved game nothing is stored. -/
theorem Owned.vacated (h : s.Owned) (state : SaveState) : (s.vacated state).Owned := by
  rw [s.vacated_eq state]
  have hgone := h.perm (List.perm_append_comm.trans (List.Perm.of_eq (List.append_nil _).symm))
  exact ⟨hgone.releaseAll.sound, List.nodup_nil, hgone.releaseAll.stored_iff⟩

theorem Owned.played (h : s.Owned) :
    Owned { s with playback := (s.playback.tick s.situation).playback } :=
  Library.Stores.plays h (Playback.store_sound_tick h.sound s.situation) (s.playback.plays_tick s.situation)

theorem Owned.change (h : s.Owned) (hc : s.Change P s') : s'.Owned := by
  cases hc with
  | loadInventory => exact h.restocked s.restocked_loadInventory
  | moveTo _ => exact h.arrives (s.moved_moveTo _).arrives
  | interpret candidates previous => exact h.congr (s.playback.interpret_library candidates previous) rfl rfl
  | play => exact h.played
  | aside ha => exact h.congr ha.library ha.inventory ha.roomIds_eq

/-! ### Scripts that may go on -/

theorem ready_restocked (h : s.playback.Ready) (ho : s.Owned) (hs : s.Restocked s') : s'.playback.Ready := by
  obtain ⟨-, hlib⟩ := Prod.mk.inj hs.chunks
  have hfresh := (s.resources.fromText_objectChunks s.config.inventory).fresh
  intro q hq c hc
  rw [show s'.playback.library = _ from hlib] at hc
  rw [show s'.playback.interpreter = _ from hs.interpreter] at hq
  rcases Library.fresh_of_exchange ho.sound hfresh hc with ⟨-, -, hr⟩ | ⟨-, hc, -⟩
  · exact hr
  · exact h q hq c hc

theorem ready_of_queue_nil (h : s.interpreter.queue = []) : s.playback.Ready := by
  intro q hq
  rw [show s.playback.interpreter.queue = [] from h] at hq
  cases hq

theorem ready_change (h : s.playback.Ready) (ho : s.Owned) (hc : s.Change P s') : s'.playback.Ready := by
  cases hc with
  | loadInventory => exact ready_restocked h ho s.restocked_loadInventory
  | moveTo _ => exact ready_of_queue_nil (s.moved_moveTo _).arrives.queue
  | interpret candidates previous => exact h.interpret candidates previous
  | play => exact h.tick s.situation
  | aside ha =>
      have hlib : s'.playback.library = s.playback.library := ha.library
      have hint : s'.playback.interpreter = s.playback.interpreter := ha.interpreter
      unfold Playback.Ready
      rw [hlib, hint]
      exact h

/-! ### Lines -/

/-- Every stored chunk belongs to the inventory or to the room, no line waits for a chunk that is not
loaded, and no retired chunk is queued. -/
structure Orderly (s : Session) : Prop where
  owned : s.library.Stores (s.inventory.chunkIds ++ s.roomIds)
  noneWaiting : s.library.NoneWaiting
  ready : s.playback.Ready

theorem orderly_start (config : SessionConfig) (resources : Resources) (host : Host) :
    (start config resources host).Orderly where
  owned := owned_start config resources host
  noneWaiting := Library.NoneWaiting.empty
  ready _ hq := nomatch hq

theorem noneWaiting_change (h : s.library.NoneWaiting) (hc : s.Change P s') : s'.library.NoneWaiting := by
  cases hc with
  | loadInventory =>
      rw [(Prod.mk.inj s.restocked_loadInventory.chunks).2]
      exact (h.releaseAll _).adoptAll _
  | @moveTo id _ =>
      rw [(Prod.mk.inj (s.moved_moveTo id).chunks).2]
      exact (h.releaseAll _).adoptAll _
  | interpret candidates previous =>
      change (s.playback.interpret candidates previous).2.library.NoneWaiting
      rw [s.playback.interpret_library candidates previous]
      exact h
  | play => exact h.plays (s.playback.plays_tick s.situation)
  | aside ha =>
      rw [ha.library]
      exact h

theorem Orderly.change (h : s.Orderly) (hc : s.Change P s') : s'.Orderly where
  owned := Owned.change h.owned hc
  noneWaiting := noneWaiting_change h.noneWaiting hc
  ready := ready_change h.ready h.owned hc

theorem Orderly.changes (h : s.Orderly) (hc : s.Changes P s') : s'.Orderly := by
  induction hc with
  | refl => exact h
  | tail _ hc ih => exact ih.change hc

/-! ### Texts of the owners -/

/-- The chunks of the inventory and those of the present room, as their texts define them. -/
def texts (s : Session) : List Chunk :=
  s.resources.objectChunks s.config.inventory ++ s.resources.roomChunks s.rooms.current

/-- The inventory is not defined by the text of a room, and the owners hold chunks of their texts. -/
structure Stocked (s : Session) : Prop where
  apart : ∀ id, s.config.inventory ≠ Room.resourceName id
  sound : s.library.Sound s.texts
  inventory : ∀ id ∈ s.inventory.chunkIds, ∀ c, s.library.store.get? id = some c →
    c.fresh ∈ s.resources.objectChunks s.config.inventory
  room : ∀ id ∈ s.roomIds, ∀ c, s.library.store.get? id = some c →
    c.fresh ∈ s.resources.roomChunks s.rooms.current

theorem distinct_texts (r : Resources) {name : String} {id : UInt16} (h : name ≠ Room.resourceName id) :
    ((r.objectChunks name ++ r.roomChunks id).map Chunk.signature).Nodup := by
  have hitems := r.fromText_objectChunks name
  have hroom := r.fromText_roomChunks id
  rw [List.map_append]
  refine List.nodup_append.2 ⟨hitems.distinct, hroom.distinct, fun a ha b hb hab => ?_⟩
  obtain ⟨d, hd, rfl⟩ := List.mem_map.1 hb
  exact hitems.disjoint hroom h d hd (hab ▸ ha)

/-- After the chunks of one owner are exchanged, those of the other are still there. -/
theorem sound_exchange {l : Library} {defs items places : List Chunk} {gone kept : List ChunkId}
    (h : l.Sound defs) (hstores : l.Stores (gone ++ kept)) (hsub : items.Sublist defs)
    (hkept : ∀ id ∈ kept, ∀ c, l.store.get? id = some c → c.fresh ∈ items)
    (hfresh : ∀ d ∈ places, d.fresh = d) (hnodup : ((items ++ places).map Chunk.signature).Nodup) :
    (Library.adoptAll places (l.releaseAll gone)).2.Sound (items ++ places) := by
  have hitems : (l.releaseAll gone).Sound items := by
    refine (h.releaseAll gone).sublist hsub fun {id c} hc => ?_
    have hid := (hstores.releaseAll.stored_iff id).1 ⟨c, hc⟩
    rw [Library.releaseAll_store] at hc
    split at hc
    · cases hc
    · exact hkept id hid c hc
  exact hitems.adoptAll hfresh hnodup

/-- A session in which nothing is stored. -/
theorem stocked_of_sound_nil (h : ∀ id, s.config.inventory ≠ Room.resourceName id)
    (hsound : s.library.Sound []) (hinventory : s.inventory.chunkIds = []) (hroom : s.roomIds = []) :
    s.Stocked where
  apart := h
  sound := by
    refine hsound.redefine (fun d hd => ?_) (distinct_texts s.resources (h s.rooms.current)) fun hc =>
      nomatch hsound.mem_defs hc
    rcases List.mem_append.1 hd with hd | hd
    · exact (s.resources.fromText_objectChunks s.config.inventory).fresh d hd
    · exact (s.resources.fromText_roomChunks s.rooms.current).fresh d hd
  inventory id hid := by rw [hinventory] at hid; cases hid
  room id hid := by rw [hroom] at hid; cases hid

theorem stocked_start (config : SessionConfig) (resources : Resources) (host : Host)
    (h : ∀ id, config.inventory ≠ Room.resourceName id) : (start config resources host).Stocked :=
  stocked_of_sound_nil h (Library.Sound.ofLines []) rfl rfl

theorem Stocked.vacated (h : s.Stocked) (ho : s.Owned) (state : SaveState) : (s.vacated state).Stocked := by
  have howned := ho.vacated state
  have hvacated := s.vacated_eq state
  rw [hvacated] at howned ⊢
  refine stocked_of_sound_nil h.apart (.restoreLines howned.sound (fun id => ?_) state.scriptLines) rfl rfl
  exact Option.eq_none_iff_forall_ne_some.2 fun c hc => nomatch (howned.stored_iff id).1 ⟨c, hc⟩

theorem Stocked.restocked (h : s.Stocked) (ho : s.Owned) (hs : s.Restocked s') : s'.Stocked := by
  obtain ⟨hids, hlib⟩ := Prod.mk.inj hs.chunks
  have hitems := s.resources.fromText_objectChunks s.config.inventory
  have hperm : (s.resources.objectChunks s.config.inventory ++ s.resources.roomChunks s.rooms.current).Perm
      (s.resources.roomChunks s.rooms.current ++ s.resources.objectChunks s.config.inventory) :=
    List.perm_append_comm
  refine ⟨fun id => hs.config ▸ h.apart id, ?_, fun id hid c hc => ?_, fun id hid c hc => ?_⟩
  · rw [texts, hs.config, hs.resources, hs.rooms, hlib]
    refine (sound_exchange h.sound ho (List.sublist_append_right _ _) h.room hitems.fresh ?_).perm
      hperm.symm
    exact (hperm.map _).nodup_iff.1 h.sound.distinct
  · rw [hids] at hid
    rw [hlib] at hc
    rw [hs.config, hs.resources]
    rcases Library.fresh_of_exchange ho.sound hitems.fresh hc with ⟨-, hmem, -⟩ | ⟨hnot, -⟩
    · exact hmem
    · exact absurd hid hnot
  · rw [hs.roomIds_eq] at hid
    rw [hlib, ho.get?_exchange _ hid] at hc
    rw [hs.resources, hs.rooms]
    exact h.room id hid c hc

theorem Stocked.arrives {id : UInt16} (h : s.Stocked) (ho : s.Owned) (hs : s.Arrives id s') : s'.Stocked := by
  obtain ⟨hids, hlib⟩ := Prod.mk.inj hs.chunks
  have hroom := s.resources.fromText_roomChunks id
  have howned := ho.perm List.perm_append_comm
  refine ⟨fun id => hs.config ▸ h.apart id, ?_, fun id hid c hc => ?_, fun id hid c hc => ?_⟩
  · rw [texts, hs.config, hs.resources, hs.current, hlib]
    exact sound_exchange h.sound howned (List.sublist_append_left _ _) h.inventory hroom.fresh
      (distinct_texts s.resources (h.apart id))
  · rw [hs.inventory] at hid
    rw [hlib, howned.get?_exchange _ hid] at hc
    rw [hs.config, hs.resources]
    exact h.inventory id hid c hc
  · rw [hids] at hid
    rw [hlib] at hc
    rw [hs.resources, hs.current]
    rcases Library.fresh_of_exchange howned.sound hroom.fresh hc with ⟨-, hmem, -⟩ | ⟨hnot, -⟩
    · exact hmem
    · exact absurd hid hnot

theorem Stocked.congr (h : s.Stocked) (hconfig : s'.config = s.config) (hresources : s'.resources = s.resources)
    (hcurrent : s'.rooms.current = s.rooms.current) (hlibrary : s'.library = s.library)
    (hinventory : s'.inventory = s.inventory) (hroom : s'.roomIds = s.roomIds) : s'.Stocked := by
  refine ⟨fun id => hconfig ▸ h.apart id, ?_, ?_, ?_⟩
  · rw [texts, hconfig, hresources, hcurrent, hlibrary]
    exact h.sound
  · rw [hconfig, hresources, hlibrary, hinventory]
    exact h.inventory
  · rw [hresources, hcurrent, hlibrary, hroom]
    exact h.room

theorem Stocked.played (h : s.Stocked) :
    Stocked { s with playback := (s.playback.tick s.situation).playback } := by
  have hplays := s.playback.plays_tick s.situation
  refine ⟨h.apart, Playback.sound_tick h.sound s.situation, fun id hid c hc => ?_, fun id hid c hc => ?_⟩
  · obtain ⟨c₀, hc₀, hfresh⟩ := hplays.stored_before hc
    exact hfresh ▸ h.inventory id hid c₀ hc₀
  · obtain ⟨c₀, hc₀, hfresh⟩ := hplays.stored_before hc
    exact hfresh ▸ h.room id hid c₀ hc₀

theorem Stocked.change (h : s.Stocked) (ho : s.Owned) (hc : s.Change P s') : s'.Stocked := by
  cases hc with
  | loadInventory => exact h.restocked ho s.restocked_loadInventory
  | moveTo _ => exact h.arrives ho (s.moved_moveTo _).arrives
  | interpret candidates previous =>
      exact h.congr rfl rfl rfl (s.playback.interpret_library candidates previous) rfl rfl
  | play => exact h.played
  | aside ha =>
      exact h.congr ha.config ha.resources (by rw [ha.rooms]) ha.library ha.inventory ha.roomIds_eq

theorem Stocked.changes (h : s.Stocked) (ho : s.Orderly) (hc : s.Changes P s') : s'.Stocked := by
  induction hc with
  | refl => exact h
  | tail hcs hc ih => exact ih.change (ho.changes hcs).owned hc

end Session
end Adventure
