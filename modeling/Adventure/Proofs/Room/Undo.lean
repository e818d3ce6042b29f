import Adventure.Proofs.Room.Sections
import Adventure.Proofs.Script.Deeds
/-! Reading and giving back. A text that cannot be read leaves the library as it was; what was read from a text leaves
no trace when it is destroyed, but for the signatures of its own chunks. -/
namespace Adventure

open Script (Chunk ChunkId Deed Library Progress Store)
open Text (Line Reader)

namespace Script.Library

/-! ### Chunks of an owner -/

def deeds (l : Library) (ds : List (ChunkId × Deed)) : Library :=
  ds.foldl (fun l d => l.deed d.1 d.2) l

/-- Among the chunks at the handles one of the signature is retired. -/
def Retired (l : Library) (ids : List ChunkId) (sig : String) : Prop :=
  ∃ id ∈ ids, ∃ c, l.store.get? id = some c ∧ c.retired = true ∧ c.signature = sig

/-- The second library is the first with chunks of an owner at the handles, which have the signatures. -/
structure Apart (ids : List ChunkId) (sigs : List String) (l₀ l : Library) : Prop where
  unused : ∀ id ∈ ids, l₀.store.get? id = none
  others : ∀ id ∉ ids, l.store.get? id = l₀.store.get? id
  own : ∀ id ∈ ids, ∃ sig ∈ sigs, l.store.signature? id = some sig
  elsewhere : ∀ sig ∉ sigs, l.register.get? sig = l₀.register.get? sig
  removed : ∀ sig ∈ sigs,
    l.register.get? sig = some .removed ↔ l₀.register.get? sig = some .removed ∨ l.Retired ids sig
  live : ∀ sig ∈ sigs, l.register.get? sig = some .removed ∨
    ∃ id ∈ ids, l.register.get? sig = some (.live id) ∧ l.store.signature? id = some sig

/-- Nothing is left of an owner but the signatures of its chunks, where these are marked as removed. -/
structure Undone (sigs : List String) (retired : String → Prop) (l₀ l : Library) : Prop where
  store : ∀ id, l.store.get? id = l₀.store.get? id
  elsewhere : ∀ sig ∉ sigs, l.register.get? sig = l₀.register.get? sig
  removed : ∀ sig ∈ sigs, l₀.register.get? sig = some .removed ∨ retired sig → l.register.get? sig = some .removed
  absent : ∀ sig ∈ sigs, ¬(l₀.register.get? sig = some .removed ∨ retired sig) → l.register.get? sig = none

variable {l l₀ : Library} {ids : List ChunkId} {sigs : List String} {id : ChunkId} {sig : String} {cs : List Chunk}

theorem Apart.of_mem_iff {sigs' : List String} (h : Apart ids sigs l₀ l) (hsigs : ∀ sig, sig ∈ sigs' ↔ sig ∈ sigs) :
    Apart ids sigs' l₀ l where
  unused := h.unused
  others := h.others
  own id hid := by simpa only [hsigs] using h.own id hid
  elsewhere sig hsig := h.elsewhere sig fun hmem => hsig ((hsigs sig).2 hmem)
  removed sig hsig := h.removed sig ((hsigs sig).1 hsig)
  live sig hsig := h.live sig ((hsigs sig).1 hsig)

/-! ### Taking -/

/-- The register leads from each signature to a chunk that was taken, unless it is marked as removed. -/
theorem live_adoptAll (hs : l.store.Sound) (hsig : sig ∈ cs.map Chunk.signature) :
    (adoptAll cs l).2.register.get? sig = some .removed ∨ ∃ id ∈ (adoptAll cs l).1,
      (adoptAll cs l).2.register.get? sig = some (.live id) ∧
        (adoptAll cs l).2.store.signature? id = some sig := by
  induction cs generalizing l with
  | nil => cases hsig
  | cons d cs ih =>
      have hs' := (adopt_grows hs d).sound
      by_cases hrest : sig ∈ cs.map Chunk.signature
      · refine (ih hs' hrest).imp_right ?_
        rintro ⟨id, hid, hlive⟩
        exact ⟨id, List.mem_append_right _ hid, hlive⟩
      · -- No later chunk has the signature.
        obtain rfl : sig = d.signature := (List.mem_cons.1 hsig).resolve_right hrest
        rw [adoptAll, adoptAll_register_of_ne hrest]
        cases hplaced : placed d (l.register.get? d.signature) with
        | none =>
            have hrem := placed_eq_none_iff.1 hplaced
            rw [adopt_of_removed hrem]
            exact .inl hrem
        | some c =>
            obtain ⟨id, hid, hc, hregister⟩ := adopt_store hs hplaced
            have hsignature : c.signature = d.signature := Chunk.signature_of_fresh_eq (fresh_of_placed hplaced)
            refine .inr ⟨id, List.mem_append_left _ (by simp [hid]), ?_, ?_⟩
            · rw [hregister, Table.get?_insert_self]
            · rw [Store.signature?, (adoptAll_grows cs hs').get?_of_some hc, Option.map_some, hsignature]

theorem apart_adoptAll (hs : l.store.Sound) (hcs : ∀ c ∈ cs, c.fresh = c) :
    Apart (adoptAll cs l).1 (cs.map Chunk.signature) l (adoptAll cs l).2 := by
  have hgrows := adoptAll_grows cs hs
  have hstored : ∀ id ∈ (adoptAll cs l).1, ∃ c, (adoptAll cs l).2.store.get? id = some c ∧
      c.signature ∈ cs.map Chunk.signature ∧ c.retired = false := by
    intro id hid
    obtain ⟨d, hd, c, hc, hcd⟩ := stored_of_adoptAll hs cs id hid
    have hfresh : c.fresh = d.fresh ∧ c.retired = d.retired := by
      rcases hcd with rfl | ⟨line, -, rfl⟩
      · exact ⟨rfl, rfl⟩
      · exact ⟨(Chunk.IsMove.seek line.toNat).fresh d, (Chunk.IsMove.seek line.toNat).retired d⟩
    refine ⟨c, hc, List.mem_map.2 ⟨d, hd, (Chunk.signature_of_fresh_eq hfresh.1).symm⟩, ?_⟩
    rw [hfresh.2, Chunk.retired_of_fresh (hcs d hd)]
  refine ⟨hgrows.unused, hgrows.kept, fun id hid => ?_, fun sig hsig => adoptAll_register_of_ne hsig,
    fun sig _ => ?_, fun sig hsig => live_adoptAll hs hsig⟩
  · obtain ⟨c, hc, hmem, -⟩ := hstored id hid
    exact ⟨c.signature, hmem, by rw [Store.signature?, hc, Option.map_some]⟩
  · have hnone : ¬(adoptAll cs l).2.Retired (adoptAll cs l).1 sig := by
      rintro ⟨id, hid, c, hc, hretired, -⟩
      obtain ⟨c', hc', -, hlive⟩ := hstored id hid
      cases hc.symm.trans hc'
      rw [hlive] at hretired
      cases hretired
    rw [adoptAll_removed_iff, or_iff_left hnone]

/-! ### Deeds -/

theorem removed_deed_iff (l : Library) (id : ChunkId) (deed : Deed) (sig : String) :
    (l.deed id deed).register.get? sig = some .removed ↔
      (deed = .retire ∧ l.store.signature? id = some sig) ∨ l.register.get? sig = some .removed := by
  rw [deed_register]
  split
  · next h => simp [h]
  · next h => simp [h]

theorem retired_deed_iff (l : Library) (id : ChunkId) (deed : Deed) (ids : List ChunkId) (sig : String) :
    (l.deed id deed).Retired ids sig ↔
      (deed = .retire ∧ id ∈ ids ∧ l.store.signature? id = some sig) ∨ l.Retired ids sig := by
  have hget : ∀ j, (l.deed id deed).store.get? j = if j = id then (l.store.get? id).map deed.apply else l.store.get? j := by
    intro j
    rw [deed_store, Store.get?_modify]
  constructor
  · rintro ⟨j, hj, c', hc', hretired, rfl⟩
    rw [hget] at hc'
    split at hc'
    · next heq =>
      subst heq
      obtain ⟨c, hc, rfl⟩ := Option.map_eq_some_iff.1 hc'
      rw [deed.signature_apply]
      rcases (deed.retired_apply c).1 hretired with hdeed | hretired
      · exact .inl ⟨hdeed, hj, by rw [Store.signature?, hc, Option.map_some]⟩
      · exact .inr ⟨j, hj, c, hc, hretired, rfl⟩
    · exact .inr ⟨j, hj, c', hc', hretired, rfl⟩
  · rintro (⟨rfl, hid, hsig⟩ | ⟨j, hj, c, hc, hretired, rfl⟩)
    · obtain ⟨c, hc, rfl⟩ := Option.map_eq_some_iff.1 hsig
      exact ⟨id, hid, c.retire, by rw [hget, if_pos rfl, hc]; rfl, rfl, rfl⟩
    · by_cases heq : j = id
      · subst heq
        exact ⟨j, hj, deed.apply c, by rw [hget, if_pos rfl, hc]; rfl, (deed.retired_apply c).2 (.inr hretired),
          deed.signature_apply c⟩
      · exact ⟨j, hj, c, by rw [hget, if_neg heq, hc], hretired, rfl⟩

/-- What is done with a chunk of the owner concerns its handle and its signature. -/
theorem Apart.deed_own (h : Apart ids sigs l₀ l) (hid : id ∈ ids) (deed : Deed) :
    Apart ids sigs l₀ (l.deed id deed) := by
  refine ⟨h.unused, fun j hj => ?_, fun j hj => ?_, fun sig hsig => ?_, fun sig hsig => ?_, fun sig hsig => ?_⟩
  · have hne : j ≠ id := fun heq => hj (heq ▸ hid)
    rw [deed_store, Store.get?_modify_of_ne _ _ hne, h.others j hj]
  · rw [signature?_deed]
    exact h.own j hj
  · obtain ⟨other, hother, hown⟩ := h.own id hid
    have hnot : ¬(deed = .retire ∧ l.store.signature? id = some sig) := by
      rintro ⟨-, heq⟩
      cases hown.symm.trans heq
      exact hsig hother
    rw [deed_register, if_neg hnot, h.elsewhere sig hsig]
  · rw [removed_deed_iff, retired_deed_iff, h.removed sig hsig]
    simp only [hid, true_and]
    exact or_left_comm
  · rw [removed_deed_iff, deed_register]
    simp only [signature?_deed]
    split
    · next hdeed => exact .inl (.inl hdeed)
    · exact (h.live sig hsig).imp_left .inr

/-- What is done with another chunk would be done without the owner as well. -/
theorem Apart.deed_other (h : Apart ids sigs l₀ l) (hid : id ∉ ids) (deed : Deed) :
    Apart ids sigs (l₀.deed id deed) (l.deed id deed) := by
  have hsame : l.store.signature? id = l₀.store.signature? id := congrArg (Option.map _) (h.others id hid)
  refine ⟨fun j hj => ?_, fun j hj => ?_, fun j hj => ?_, fun sig hsig => ?_, fun sig hsig => ?_, fun sig hsig => ?_⟩
  · have hne : j ≠ id := fun heq => hid (heq ▸ hj)
    rw [deed_store, Store.get?_modify_of_ne _ _ hne, h.unused j hj]
  · rw [deed_store, deed_store, Store.get?_modify, Store.get?_modify, h.others id hid, h.others j hj]
  · rw [signature?_deed]
    exact h.own j hj
  · rw [deed_register, deed_register, hsame, h.elsewhere sig hsig]
  · rw [removed_deed_iff, removed_deed_iff, retired_deed_iff, h.removed sig hsig, hsame]
    simp only [hid, false_and, and_false, false_or]
    exact or_assoc.symm
  · rw [removed_deed_iff, deed_register]
    simp only [signature?_deed]
    split
    · next hdeed => exact .inl (.inl hdeed)
    · exact (h.live sig hsig).imp_left .inr

theorem Apart.deeds (h : Apart ids sigs l₀ l) (ds : List (ChunkId × Deed)) :
    Apart ids sigs (l₀.deeds (ds.filter (·.1 ∉ ids))) (l.deeds ds) := by
  induction ds generalizing l₀ l with
  | nil => exact h
  | cons d ds ih =>
      by_cases hid : d.1 ∈ ids
      · rw [List.filter_cons_of_neg (by simpa using hid)]
        exact ih (h.deed_own hid d.2)
      · rw [List.filter_cons_of_pos (by simpa using hid)]
        exact ih (h.deed_other hid d.2)

/-! ### Giving back -/

theorem Apart.undone (h : Apart ids sigs l₀ l) : Undone sigs (l.Retired ids) l₀ (l.releaseAll ids) where
  store id := by
    rw [releaseAll_store]
    split
    · next hid => exact (h.unused id hid).symm
    · next hid => exact h.others id hid
  elsewhere sig hsig := by
    refine (releaseAll_register_of_not fun id hid _ heq => ?_).trans (h.elsewhere sig hsig)
    obtain ⟨own, hown, hsignature⟩ := h.own id hid
    cases hsignature.symm.trans heq
    exact hsig hown
  removed sig hsig hremoved := releaseAll_register_of_removed ((h.removed sig hsig).2 hremoved) ids
  absent sig hsig hnot := by
    have hlive := (h.live sig hsig).resolve_left fun hremoved => hnot ((h.removed sig hsig).1 hremoved)
    obtain ⟨id, hid, hlive, hsignature⟩ := hlive
    exact releaseAll_register_of_live hid hlive hsignature

/-- The second library has an owner with the handles more than the first. When the owner is destroyed, nothing but the
signatures tells that it was there, whatever was done with its chunks and others meanwhile. -/
def Reverts (l₀ l : Library) (ids : List ChunkId) (sigs : List String) (destroy : Library → Library) : Prop :=
  ∀ ds : List (ChunkId × Deed),
    Undone sigs ((l.deeds ds).Retired ids) (l₀.deeds (ds.filter (·.1 ∉ ids))) (destroy (l.deeds ds))

theorem reverts_adoptAll {l' : Library} {destroy : Library → Library} (hs : l.store.Sound)
    (hcs : ∀ c ∈ cs, c.fresh = c) (h : (ids, l') = adoptAll cs l) (hsigs : sigs.Perm (cs.map Chunk.signature))
    (hdestroy : ∀ m, destroy m = m.releaseAll ids) : Reverts l l' ids sigs destroy := by
  intro ds
  have hapart := apart_adoptAll hs hcs
  rw [← h] at hapart
  rw [hdestroy]
  exact ((hapart.of_mem_iff fun _ => hsigs.mem_iff).deeds ds).undone

end Script.Library

/-- The chunks that were read have the signatures that open in the lines that were read. -/
theorem Yields.openings_passed {r r' : Reader} {cs : List Chunk} {passed : List Line} (h : Yields r r' cs)
    (hafter : r.after = passed ++ r'.after) : (Adventure.openings r.file passed).Perm (cs.map Chunk.signature) := by
  have hopenings := h.openings
  rw [hafter, openings_append] at hopenings
  exact (List.perm_append_right_iff _).1 hopenings

/-! ### Reading in place -/

/-- A text is read, and its chunks go into the library. -/
abbrev Load (α : Type) : Type :=
  ExceptT ParseError (StateM Library) α

namespace Load
variable {α δ : Type} {load : Load α} {read : Except ParseError δ} {install : δ → Library → α × Library}
  {l l' : Library} {a : α} {result : α → Library → Prop}

/-- Reads a definition and installs it. -/
def ofRead (read : Except ParseError δ) (install : δ → Library → α × Library) : Load α := do
  modifyGet (install (← read))

/-- The library is as before if the text cannot be read. -/
def Atomic (load : Load α) (l : Library) (result : α → Library → Prop) : Prop :=
  match load.run.run l with
  | (.error _, l') => l' = l
  | (.ok a, l') => result a l'

theorem Atomic.of_ok (h : load.Atomic l result) (hrun : load.run.run l = (.ok a, l')) : result a l' := by
  unfold Atomic at h
  rwa [hrun] at h

/-- Nothing is installed before all is read. -/
theorem atomic_ofRead (h : ∀ d, read = .ok d → result (install d l).1 (install d l).2) :
    (ofRead read install).Atomic l result := by
  cases read with
  | error e => exact rfl
  | ok d => exact h d rfl

end Load

def Object.load (r : Reader) : Load (Object × Reader) :=
  .ofRead (ObjectDef.read r) fun (d, r) l => let (o, l) := install d l; ((o, r), l)

def Container.load (r : Reader) : Load (Container × Reader) :=
  .ofRead (ObjectDef.readContainer r) fun (ds, r) l => let (c, l) := install ds l; ((c, r), l)

def Room.load (id : UInt16) (r : Reader) : Load Room :=
  .ofRead (RoomDef.empty.readSections r) (install id)

theorem Object.run_load (r : Reader) (l : Library) : (load r).run.run l =
    match parse r l with
    | .ok (o, l', r') => (.ok (o, r'), l')
    | .error e => (.error e, l) := by
  unfold load parse
  cases ObjectDef.read r with
  | error e => rfl
  | ok p => rfl

theorem Container.run_load (r : Reader) (l : Library) : (load r).run.run l =
    match parse r l with
    | .ok (c, l', r') => (.ok (c, r'), l')
    | .error e => (.error e, l) := by
  unfold load parse
  cases ObjectDef.readContainer r with
  | error e => rfl
  | ok p => rfl

theorem Room.run_load (id : UInt16) (r : Reader) (l : Library) : (load id r).run.run l =
    match parse id r l with
    | .ok (room, l') => (.ok room, l')
    | .error e => (.error e, l) := by
  unfold load parse
  cases RoomDef.empty.readSections r with
  | error e => rfl
  | ok d => rfl

/-! ### Undoing -/

section
variable {r r' : Reader} {l : Library}

theorem Object.reverts_install {d : ObjectDef} (hs : l.store.Sound) (h : ObjectDef.read r = .ok (d, r')) :
    ∃ passed, r.after = passed ++ r'.after ∧
      l.Reverts (install d l).2 (install d l).1.chunkIds (openings r.file passed) (install d l).1.destroy := by
  obtain ⟨cs, hcs, hlist⟩ := ObjectDef.read_yields h
  obtain ⟨passed, hafter, -⟩ := (ObjectDef.passes_read h).lines
  have hd := hcs.perm hlist.symm
  exact ⟨passed, hafter, Library.reverts_adoptAll hs hd.fresh (install_eq d l) (hd.openings_passed hafter) fun _ => rfl⟩

theorem Container.reverts_install {ds : List ObjectDef} (hs : l.store.Sound)
    (h : ObjectDef.readContainer r = .ok (ds, r')) :
    ∃ passed, r.after = passed ++ r'.after ∧
      l.Reverts (install ds l).2 (install ds l).1.chunkIds (openings r.file passed) (install ds l).1.destroy := by
  have hcs := ObjectDef.readContainer_yields h
  obtain ⟨passed, hafter, -⟩ := (ObjectDef.passes_readContainer h).lines
  exact ⟨passed, hafter, Library.reverts_adoptAll hs hcs.fresh (install_eq ds l) (hcs.openings_passed hafter)
    (destroy_eq _)⟩

theorem Room.reverts_install {d : RoomDef} (hs : l.store.Sound) (id : UInt16)
    (h : RoomDef.empty.readSections r = .ok d) :
    l.Reverts (install id d l).2 (install id d l).1.chunkIds (openings r.file r.after) (install id d l).1.destroy := by
  obtain ⟨cs, r', hcs, hend, hlist⟩ := RoomDef.readSections_yields h
  have hd := hcs.perm hlist.symm
  have hafter : r.after = r.after ++ r'.after := by rw [hend, List.append_nil]
  exact Library.reverts_adoptAll hs hd.fresh (install_eq id d l) (hd.openings_passed hafter) (destroy_eq _)

end

/-- A text that cannot be read changes nothing. What was read from a text can be destroyed, and nothing else is lost. -/
theorem load_atomic_reverts (r : Reader) (acts : List Store.Act) (register : Table Progress) :
    (Object.load r).Atomic ⟨Store.run acts, register⟩ (fun (o, r') l' => ∃ passed, r.after = passed ++ r'.after ∧
      Library.Reverts ⟨Store.run acts, register⟩ l' o.chunkIds (openings r.file passed) o.destroy) ∧
    (Container.load r).Atomic ⟨Store.run acts, register⟩ (fun (c, r') l' => ∃ passed, r.after = passed ++ r'.after ∧
      Library.Reverts ⟨Store.run acts, register⟩ l' c.chunkIds (openings r.file passed) c.destroy) ∧
    ∀ id, (Room.load id r).Atomic ⟨Store.run acts, register⟩ fun room l' =>
      Library.Reverts ⟨Store.run acts, register⟩ l' room.chunkIds (openings r.file r.after) room.destroy := by
  have hs := Store.sound_run acts
  refine ⟨?_, ?_, fun id => ?_⟩
  · exact Load.atomic_ofRead fun _ h => Object.reverts_install hs h
  · exact Load.atomic_ofRead fun _ h => Container.reverts_install hs h
  · exact Load.atomic_ofRead fun _ h => Room.reverts_install hs id h

/-- Its four chunks find a line that waits, a mark of removal, another chunk and nothing in the register. -/
def attic : String :=
  "Objects 1\nObject Chest\nGo\nCond\nSay a\nCond\nEnd\nEnter\nCond\nCond"

def beforeAttic : Library :=
  ⟨Store.run [.insert (.ofParts "0007.rom:9" [] [.ofKeyword "Say" "c"])],
    Table.ofList [("0006.rom:1", .cached 5), ("0007.rom:4", .cached 1), ("0007.rom:6", .removed),
      ("0007.rom:9", .live ⟨0, 0⟩)]⟩

def atticRoom : Room where
  id := 7
  locals := []
  randoms := []
  walkMap := none
  objects := ⟨[{ name := "Chest", rect := default, chunks := ⟨[⟨1, 0⟩], [], []⟩, answers := .const none }]⟩
  enter := [⟨2, 0⟩, ⟨3, 0⟩]

/-- The fourth chunk is retired, and the chunk that was there before moves on. -/
def inAttic : List (ChunkId × Deed) :=
  [(⟨3, 0⟩, .retire), (⟨0, 0⟩, .advance), (⟨1, 0⟩, .rewind)]

theorem load_atomic_reverts_attic : ∃ l',
    (Room.load 7 (.ofText "0007.rom" attic)).run.run beforeAttic = (.ok atticRoom, l') ∧
    Library.Undone ["0007.rom:4", "0007.rom:6", "0007.rom:9", "0007.rom:10"]
      ((l'.deeds inAttic).Retired atticRoom.chunkIds) (beforeAttic.deed ⟨0, 0⟩ .advance)
      (atticRoom.destroy (l'.deeds inAttic)) ∧
    ["0006.rom:1", "0007.rom:4", "0007.rom:6", "0007.rom:9", "0007.rom:10"].map
      (atticRoom.destroy (l'.deeds inAttic)).register.get? =
        [some (.cached 5), none, some .removed, none, some .removed] := by
  have hopenings : openings "0007.rom" (Text.lines attic) =
      ["0007.rom:4", "0007.rom:6", "0007.rom:9", "0007.rom:10"] := by decide +kernel
  have hrun : (Room.load 7 (.ofText "0007.rom" attic)).run.run beforeAttic =
      (.ok atticRoom, ((Room.load 7 (.ofText "0007.rom" attic)).run.run beforeAttic).2) :=
    Prod.ext (by decide +kernel) rfl
  have hreverts := ((load_atomic_reverts (.ofText "0007.rom" attic)
    [.insert (.ofParts "0007.rom:9" [] [.ofKeyword "Say" "c"])] beforeAttic.register).2.2 7).of_ok hrun
  change Library.Reverts beforeAttic _ atticRoom.chunkIds (openings "0007.rom" (Text.lines attic)) _ at hreverts
  rw [hopenings] at hreverts
  exact ⟨_, hrun, hreverts inAttic, by decide +kernel⟩

end Adventure
