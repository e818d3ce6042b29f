import Adventure.Proofs.Room.Scope
import Adventure.Proofs.Room.Sections
import Adventure.Proofs.Script.Exchange
import Adventure.Proofs.Session.Possession
/-! Coming to a room. Nothing of the time before goes on there: the queue holds entrance scripts of the room's
text alone, the local names are those of the text, and the global variables are as they were. -/
namespace Adventure

open Script (Chunk ChunkId Library Playback Queued)
open Text (Line)

theorem Script.Playback.interpret_bindings (p : Playback) (candidates : List ChunkId) (previous : UInt16) :
    (p.interpret candidates previous).2.interpreter.bindings = p.interpreter.bindings := by
  unfold interpret
  dsimp only
  split <;> rfl

theorem Script.Playback.interpret_sublist (p : Playback) (candidates : List ChunkId) (previous : UInt16) :
    (p.interpret candidates previous).1.toList.Sublist candidates := by
  cases h : (p.interpret candidates previous).1 with
  | none => exact List.nil_sublist candidates
  | some id => exact List.singleton_sublist.2 (candidate_of_interpret h).1

/-! ### Entrance chunks -/

namespace Room
variable {id : UInt16} {d : RoomDef} {l : Library}

theorem nodup_enter_install (hs : l.store.Sound) : (install id d l).1.enter.Nodup := by
  have hgrows := Library.adoptAll_grows d.chunkList hs
  rw [← chunkIds_install id] at hgrows
  exact hgrows.nodup.sublist (List.sublist_append_right _ _)

/-- The entrance chunks that are taken stand in the order of the definition. -/
theorem enter_install_in_order (hs : l.store.Sound) : ∃ taken : List Chunk, taken.Sublist d.enter ∧
    (install id d l).1.enter.map (install id d l).2.store.signature? =
      taken.map fun c => some c.signature := by
  have hobjects := Library.adoptAll_grows (d.objects.flatMap ObjectDef.chunkList) hs
  rw [← Container.library_install] at hobjects
  exact Library.adoptAll_in_order hobjects.sound d.enter

theorem get?_eq_none_of_enter_install {gone : List ChunkId} (hs : l.store.Sound) {j : ChunkId}
    (hj : j ∈ (install id d (l.releaseAll gone)).1.enter) : l.store.get? j = none := by
  have hmem : j ∈ (install id d (l.releaseAll gone)).1.chunkIds := List.mem_append_right _ hj
  rw [chunkIds_install] at hmem
  exact Library.get?_eq_none_of_taken hs hmem

end Room

/-- What a room's definition has from its text. -/
theorem Resources.gains_of_roomDef? {r : Resources} {id : UInt16} {d : RoomDef} (h : r.roomDef? id = some d) :
    ∃ bytes, r.get? (Room.resourceName id) = some bytes ∧
      RoomDef.empty.Gains (Room.resourceName id) (Text.lines (Text.decodeLossy bytes)) d := by
  obtain ⟨bytes, hbytes, hd⟩ := Option.bind_eq_some_iff.1 h
  refine ⟨bytes, hbytes, ?_⟩
  cases hread : RoomDef.empty.readSections (.ofBytes (Room.resourceName id) bytes) with
  | error e => rw [hread] at hd; cases hd
  | ok d' =>
      rw [hread] at hd
      cases hd
      have hgains := RoomDef.gains_readSections hread
      exact hgains

namespace Session
variable {s s' s'' : Session} {id : UInt16} {ids ids' : List ChunkId} {d : RoomDef}

/-! ### Queueing entrances -/

/-- What queueing chunks one by one does: some of them are queued in order, and before each the random
variables are rolled. -/
structure Queues (s : Session) (ids : List ChunkId) (s' : Session) : Prop where
  library : s'.library = s.library
  bindings : s'.interpreter.bindings = s.interpreter.bindings
  vars : s.vars.Rolled s'.vars
  room : s'.room = s.room
  conversation : s'.conversation = s.conversation
  queue : ∃ chosen : List ChunkId, chosen.Sublist ids ∧
    s'.interpreter.queue = s.interpreter.queue ++ chosen.map Queued.fresh

theorem Queues.refl (s : Session) : s.Queues [] s where
  library := rfl
  bindings := rfl
  vars := .refl s.vars
  room := rfl
  conversation := rfl
  queue := ⟨[], .refl [], (List.append_nil _).symm⟩

theorem Queues.trans (h : s.Queues ids s') (h' : s'.Queues ids' s'') : s.Queues (ids ++ ids') s'' where
  library := h'.library.trans h.library
  bindings := h'.bindings.trans h.bindings
  vars := h.vars.trans h'.vars
  room := h'.room.trans h.room
  conversation := h'.conversation.trans h.conversation
  queue := by
    obtain ⟨chosen, hsub, hqueue⟩ := h.queue
    obtain ⟨chosen', hsub', hqueue'⟩ := h'.queue
    refine ⟨chosen ++ chosen', hsub.append hsub', ?_⟩
    rw [hqueue', hqueue, List.map_append, List.append_assoc]

theorem queues_interpret (h : s.vars.Confined) (ids : List ChunkId) (previous : UInt16) :
    s.Queues ids { s with playback := (s.playback.interpret ids previous).2 } where
  library := s.playback.interpret_library ids previous
  bindings := s.playback.interpret_bindings ids previous
  vars := by
    change s.vars.Rolled (s.playback.interpret ids previous).2.vars
    rw [s.playback.interpret_vars ids previous]
    exact h.rolled_reroll _
  room := rfl
  conversation := rfl
  queue := ⟨_, s.playback.interpret_sublist ids previous, s.playback.interpret_queue ids previous⟩

theorem queues_queueEntrances (h : s.vars.Confined) (ids : List ChunkId) : s.Queues ids (s.queueEntrances ids) := by
  induction ids generalizing s with
  | nil => exact .refl s
  | cons id ids ih =>
      have hfirst := queues_interpret h [id] s.rooms.previous
      exact hfirst.trans (ih (h.congr hfirst.vars.declared))

/-! ### Entering a room -/

/-- The room that a session comes to. -/
def arrival (s : Session) (id : UInt16) (d : RoomDef) : Room :=
  (Room.install id d (s.library.releaseAll s.roomIds)).1

theorem enterRoom_of_some (h : s.resources.roomDef? id = some d) :
    s.enterRoom id = (.ok (), ((s.between id).installRoom id d).queueEntrances (s.arrival id d).enter) := by
  rw [enterRoom_eq, moveTo_eq, loadRoom_of_some (s := s.between id) h]
  rfl

theorem enterRoom_of_none (h : s.resources.roomDef? id = none) :
    ∃ e, s.enterRoom id = (.error e, s.between id) := by
  obtain ⟨e, he⟩ := loadRoom_of_none (s := s.between id) h
  exact ⟨e, by rw [enterRoom_eq, moveTo_eq, he]⟩

/-- Whatever scripts were queued and sounds were bound, entering a room comes to the same. -/
theorem enterRoom_setInterpreter (s : Session) (id : UInt16) (queue : List Queued)
    (bindings : List Script.SoundBinding) (idleTicks : Nat) :
    (s.setInterpreter { s.interpreter with queue, bindings, idleTicks }).enterRoom id = s.enterRoom id := by
  rw [enterRoom_eq, enterRoom_eq, moveTo_eq, moveTo_eq]
  rfl

/-- Nothing that went on before goes on, and no global variable has changed. -/
structure Departs (s s' : Session) : Prop where
  conversation : s'.conversation = none
  bindings : s'.interpreter.bindings = []
  globals : s'.vars.globals = s.vars.globals
  /-- What is queued now was not even loaded before. -/
  queue : ∀ q ∈ s'.interpreter.queue, s.library.store.get? q.chunk = none

/-- The session is in the room that the lines define. -/
structure Enters (s : Session) (room : Room) (lines : List Line) : Prop where
  loaded : s.room = some room
  /-- The entrance chunks stand in the order of their lines. -/
  places : ∃ places : List String,
    places.Sublist (openings (Room.resourceName room.id) (entranceLines false lines)) ∧
      room.enter.map s.library.store.signature? = places.map some
  nodup : room.enter.Nodup
  queue : ∃ chosen : List ChunkId, chosen.Sublist room.enter ∧ s.interpreter.queue = chosen.map Queued.fresh
  names : ∀ key, s.vars.localNames.get? key = some () ↔
    key ≠ "" ∧ ∃ name ∈ localNames lines ++ randomNames lines, variableKey name = key
  values : ∀ key value, s.vars.locals.get? key = some value →
    key ≠ "" ∧ ∃ name ∈ randomNames lines, variableKey name = key

/-- The session is in no room, and nothing of a room is left. -/
structure Nowhere (s : Session) : Prop where
  room : s.room = none
  queue : s.interpreter.queue = []
  locals : s.vars.locals = ∅
  localNames : s.vars.localNames = ∅
  randoms : s.vars.randoms = []

theorem departs_between (s : Session) (id : UInt16) : s.Departs (s.between id) where
  conversation := rfl
  bindings := rfl
  globals := rfl
  queue _ hq := nomatch hq

theorem nowhere_between (s : Session) (id : UInt16) : (s.between id).Nowhere :=
  ⟨rfl, rfl, rfl, rfl, rfl⟩

theorem queues_enterRoom (h : s.resources.roomDef? id = some d) :
    ((s.between id).installRoom id d).Queues (s.arrival id d).enter (s.enterRoom id).2 := by
  have hconfined : ((s.between id).installRoom id d).vars.Confined :=
    Room.confined_declareVariables (v := s.vars.clearLocals) ⟨rfl, rfl⟩
  rw [enterRoom_of_some h]
  exact queues_queueEntrances hconfined _

theorem departs_of_some (hs : s.library.store.Sound) (h : s.resources.roomDef? id = some d) :
    s.Departs (s.enterRoom id).2 := by
  have hqueues := queues_enterRoom h
  refine ⟨hqueues.conversation, hqueues.bindings, ?_, fun q hq => ?_⟩
  · rw [hqueues.vars.globals]
    change ((s.arrival id d).declareVariables s.vars.clearLocals).globals = s.vars.globals
    rw [Room.declareVariables_eq]
    rfl
  · obtain ⟨chosen, hchosen, hqueue⟩ := hqueues.queue
    change _ = [] ++ chosen.map Queued.fresh at hqueue
    rw [hqueue, List.nil_append] at hq
    obtain ⟨j, hj, rfl⟩ := List.mem_map.1 hq
    exact Room.get?_eq_none_of_enter_install hs (hchosen.subset hj)

theorem enters_of_gains (hs : s.library.store.Sound) (h : s.resources.roomDef? id = some d) {lines : List Line}
    (hgains : RoomDef.empty.Gains (Room.resourceName id) lines d) :
    (s.enterRoom id).2.Enters (s.arrival id d) lines := by
  have hqueues := queues_enterRoom h
  have hs' := Library.releaseAll_store_sound hs s.roomIds
  have hvars : ((s.between id).installRoom id d).vars = (s.arrival id d).declareVariables s.vars.clearLocals := rfl
  have hlocals : (s.arrival id d).locals = localNames lines := hgains.locals
  have hrandoms : (s.arrival id d).randoms.map Prod.fst = randomNames lines := hgains.randoms
  refine ⟨hqueues.room, ?_, Room.nodup_enter_install hs', ?_, fun key => ?_, fun key value hvalue => ?_⟩
  · obtain ⟨taken, hsub, hsigs⟩ : ∃ taken : List Chunk, taken.Sublist d.enter ∧ _ :=
      Room.enter_install_in_order hs'
    have henter : d.enter.map Chunk.signature = openings (Room.resourceName id) (entranceLines false lines) :=
      hgains.enter
    refine ⟨taken.map Chunk.signature, ?_, ?_⟩
    · exact henter ▸ hsub.map Chunk.signature
    · rw [hqueues.library, List.map_map]
      exact hsigs
  · obtain ⟨chosen, hchosen, hqueue⟩ := hqueues.queue
    exact ⟨chosen, hchosen, hqueue⟩
  · rw [hqueues.vars.declared.localNames, hvars, Room.localName_declareVariables_iff rfl, hlocals, hrandoms]
  · rcases hqueues.vars.locals key with hsame | ⟨hne, hrandom⟩
    · rw [hsame, hvars, Room.declareVariables_eq] at hvalue
      cases hvalue
    · rw [hvars, Room.random_declareVariables_iff rfl, hrandoms] at hrandom
      exact ⟨hne, hrandom⟩

/-- Entering a room leaves the one before behind, whether the new one can be loaded or not. What runs in the new
room are scripts of its text alone, in the order of the text, and its names are those of the text. -/
theorem enterRoom_isolates (config : SessionConfig) (resources : Resources) (host : Host) (as : List Act)
    (id : UInt16) :
    let s := (start config resources host).acts as
    s.Departs (s.enterRoom id).2 ∧
      (∀ queue bindings idleTicks,
        (s.setInterpreter { s.interpreter with queue, bindings, idleTicks }).enterRoom id = s.enterRoom id) ∧
      match s.enterRoom id with
      | (.ok (), s') => ∃ room bytes, room.id = id ∧ s.resources.get? (Room.resourceName id) = some bytes ∧
          s'.Enters room (Text.lines (Text.decodeLossy bytes))
      | (.error _, s') => s'.Nowhere := by
  intro s
  have hs : s.library.store.Sound := ((possesses_start config resources host).acts as).owned.sound
  refine ⟨?_, s.enterRoom_setInterpreter id, ?_⟩
  · cases h : s.resources.roomDef? id with
    | none =>
        obtain ⟨e, he⟩ := enterRoom_of_none h
        rw [he]
        exact s.departs_between id
    | some d => exact departs_of_some hs h
  · cases h : s.resources.roomDef? id with
    | none =>
        obtain ⟨e, he⟩ := enterRoom_of_none h
        rw [he]
        exact s.nowhere_between id
    | some d =>
        obtain ⟨bytes, hbytes, hgains⟩ := Resources.gains_of_roomDef? h
        have henters := enters_of_gains hs h hgains
        rw [enterRoom_of_some h] at henters ⊢
        exact ⟨s.arrival id d, bytes, rfl, hbytes, henters⟩

/-- Two rooms with names and entrance scripts of their own; in the second one of the scripts does not run. -/
def belfry : Resources :=
  (Resources.inMemory.insert "0100.rom" "Local rope\nRandom bell 3\nEnter\nCond\nDelay 50\n".toUTF8.toList).insert
    "0200.rom" "Enter\nCond lit\nDelay 20\nCond\nDelay 20\nRandom wind 4\n".toUTF8.toList

theorem enterRoom_isolates_belfry :
    let s := (start .standard belfry (.silent false)).acts [.operation (.enterRoom 100)]
    let s' := (s.enterRoom 200).2
    (s.interpreter.queue.length = 1 ∧ s.vars.localNames.keys = ["BELL", "ROPE"] ∧
      s'.interpreter.queue.length = 1 ∧ s'.vars.localNames.keys = ["WIND"]) ∧ s.Departs s' := by
  intro s s'
  have hscopes : s.interpreter.queue.length = 1 ∧ s.vars.localNames.keys = ["BELL", "ROPE"] ∧
      s'.interpreter.queue.length = 1 ∧ s'.vars.localNames.keys = ["WIND"] := by decide +kernel
  obtain ⟨hdeparts, -⟩ := enterRoom_isolates .standard belfry (.silent false) [.operation (.enterRoom 100)] 200
  exact ⟨hscopes, hdeparts⟩

end Session
end Adventure
