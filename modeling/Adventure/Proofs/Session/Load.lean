import Adventure.Proofs.Save.Record
import Adventure.Proofs.Script.Resume
import Adventure.Proofs.Session.Ownership
import Adventure.Proofs.Session.Texts
/-! Loading a saved game into a new session: what the new session then holds, and when loading fails. -/
namespace Adventure.Session

open Script (Chunk Library)

variable {P : UInt16 → Prop} {s t : Session} {config : SessionConfig} {resources : Resources}
  {host host' : Host} {bytes : MessagePack.Bytes}

/-! ### The steps of loading -/

/-- A new session with the lines and the variables of a saved game. -/
def reopened (config : SessionConfig) (resources : Resources) (host : Host) (state : SaveState) : Session where
  config
  resources
  playback := {
    library := Library.empty.restoreLines state.scriptLines
    interpreter := .ofSeed config.seed config.drainTicks
    vars := .ofSnapshot state.vars
    host }
  grid := .ofScreen config.screenWidth config.screenHeight config.cellSize config.pathExpansion
  rooms := state.rooms
  room := none
  inventory := .empty
  conversation := none

theorem restore_start (state : SaveState) : (start config resources host).restore state =
    match (reopened config resources host state).loadInventory with
    | (.error e, s) => (.error e, s)
    | (.ok (), s) => s.resumeRoom state :=
  restore_eq _ state

theorem ofBytes_of_save (h : s.save = .ok bytes) : SaveState.ofBytes bytes = .ok s.saveState := by
  unfold save at h
  cases hbytes : s.saveState.toBytes with
  | error e => rw [hbytes] at h; cases h
  | ok bytes' =>
      rw [hbytes] at h
      cases h
      exact SaveState.ofBytes_toBytes hbytes

theorem load_of_save (h : s.save = .ok bytes) (t : Session) : t.load bytes = t.restore s.saveState := by
  rw [load, ofBytes_of_save h]

theorem startConversation_of_some {name : String} {c : Conversation}
    (h : s.resources.conversation? name = some c) :
    s.startConversation name = (.ok true, { s with conversation := some c }) := by
  obtain ⟨bytes, hbytes, hc⟩ := Option.bind_eq_some_iff.1 h
  unfold startConversation
  dsimp only
  rw [if_neg (by simp [Resources.contains_eq, hbytes]), readText_of_some hbytes]
  cases hread : Conversation.parse name (.ofBytes (Conversation.resourceName name) bytes) with
  | error e => rw [hread] at hc; cases hc
  | ok c' => rw [hread] at hc; cases hc; simp [hread]

theorem resume_saveState (h : s.AsWritten P) (hres : t.resources = s.resources) (ht : t.conversation = none) :
    ∃ conversation,
      t.resume s.saveState = (.ok (), { t.requeued s.saveState with conversation }) ∧
        conversation.map Conversation.snapshot = s.saveState.conversation := by
  cases hc : s.conversation with
  | none =>
      refine ⟨none, ?_, by simp only [saveState, hc, Option.map_none]⟩
      obtain ⟨config, resources, playback, grid, rooms, room, inventory, conversation⟩ := t
      cases ht
      simp only [resume, saveState, hc]
      rfl
  | some c =>
      obtain ⟨c₀, hc₀, hplayed⟩ := h.conversation c hc
      have hread : (t.requeued s.saveState).resources.conversation? c.snapshot.name = some c₀ := hres ▸ hc₀
      refine ⟨some (c₀.restore c.snapshot), ?_, ?_⟩
      · have hresume : t.resume s.saveState = (t.requeued s.saveState).resumeConversation c.snapshot := by
          simp only [resume, saveState, hc, Option.map_some]
          rfl
        rw [hresume, resumeConversation, startConversation_of_some hread]
        rfl
      · rw [Option.map_some, hplayed.snapshot_restore (h.inRange hc), saveState, hc, Option.map_some]

/-- A session into which the texts and lines of another one were loaded, but not yet its queue and its
conversation. -/
structure Reloads (t s : Session) : Prop where
  resources : t.resources = s.resources
  rooms : t.rooms = s.rooms
  conversation : t.conversation = none
  vars : t.vars = .ofSnapshot s.vars.snapshot
  library : ∃ defs cs, s.library.Sound defs ∧ defs ⊆ cs ∧ (∀ d ∈ cs, d.fresh = d) ∧
    (cs.map Chunk.signature).Nodup ∧ t.library = (s.library.resumed cs).2

/-- What is saved after loading. -/
def resaved (state : SaveState) : SaveState :=
  { state with
    vars := { state.vars with lastChanged := state.vars.lastChanged + 1 }
    interpreter := { state.interpreter with
      queue := state.interpreter.queue.filter fun script =>
        (script.signature, Script.removedLine) ∉ state.scriptLines } }

theorem Reloads.saveState_resume (h : t.Reloads s) (hw : s.AsWritten P) (ho : s.Orderly)
    (hnow : t.host.now = s.host.now) :
    (t.resume s.saveState).1 = .ok () ∧ (t.resume s.saveState).2.saveState = resaved s.saveState := by
  obtain ⟨conversation, hresume, hconversation⟩ := resume_saveState hw h.resources h.conversation
  obtain ⟨defs, cs, hsound, hsub, hfresh, hnodup, hlibrary⟩ := h.library
  have hlines : t.library.lines = s.library.lines :=
    hlibrary ▸ hsound.resumed_lines ho.noneWaiting hfresh hnodup hsub
  have hqueue := Script.Interpreter.save_restore hsound hfresh hnodup hsub s.interpreter t.interpreter
    ho.ready s.host.now
  rw [hresume]
  refine ⟨rfl, ?_⟩
  change SaveState.mk t.rooms t.vars.snapshot t.library.lines
    ((t.interpreter.restore s.saveState.interpreter t.library t.host.now).save t.library.store t.host.now)
    (conversation.map Conversation.snapshot) = _
  rw [h.rooms, h.vars, Variables.ofSnapshot_snapshot, hlines, hnow, hlibrary, hconversation]
  exact congrArg (SaveState.mk _ _ _ · _) hqueue

/-! ### Loading the texts again -/

/-- The session after the inventory was loaded anew. -/
def equipped (config : SessionConfig) (resources : Resources) (host : Host) (state : SaveState)
    (ds : List ObjectDef) : Session :=
  (reopened config resources host state).installInventory ds

theorem equipped_library (state : SaveState) {ds : List ObjectDef}
    (h : resources.objectDefs? config.inventory = some ds) :
    (equipped config resources host state ds).library =
      (Library.adoptAll (resources.objectChunks config.inventory)
        (Library.empty.restoreLines state.scriptLines)).2 := by
  rw [Resources.objectChunks, h, Option.getD_some]
  exact Container.library_install ds _

theorem restore_start_of_some (state : SaveState) {ds : List ObjectDef}
    (h : resources.objectDefs? config.inventory = some ds) :
    (start config resources host).restore state =
      (equipped config resources host state ds).resumeRoom state := by
  rw [restore_start, loadInventory_of_some (s := reopened config resources host state) h]
  rfl

theorem resumeRoom_ok_iff (h : s.AsWritten P) (hres : t.resources = s.resources) (hrooms : t.rooms = s.rooms)
    (hconversation : t.conversation = none) :
    (t.resumeRoom s.saveState).1 = .ok () ↔ s.rooms.current = 0 ∨ s.room.isSome := by
  unfold resumeRoom
  rw [hrooms]
  split
  · next hzero =>
    obtain ⟨_, hresume, -⟩ := resume_saveState h hres hconversation
    rw [hresume]
    exact iff_of_true rfl (.inl hzero)
  · next hne =>
    obtain ⟨-, hroom⟩ := h.room.resolve_left fun hnone => hne hnone.2
    cases hdef : t.resources.roomDef? s.rooms.current with
    | none =>
        obtain ⟨e, hload⟩ := loadRoom_of_none hdef
        rw [hload]
        rw [← hres, hdef, Option.map_none, Option.map_eq_none_iff] at hroom
        simp [hne, hroom]
    | some d =>
        rw [loadRoom_of_some hdef]
        dsimp only
        obtain ⟨_, hresume, -⟩ :=
          resume_saveState (t := t.installRoom s.rooms.current d) h hres hconversation
        rw [← hres, hdef, Option.map_some, Option.map_eq_some_iff] at hroom
        obtain ⟨room, hsome, -⟩ := hroom
        rw [hresume, hsome]
        exact iff_of_true rfl (.inr rfl)

theorem reloads_equipped (hs : s.Stocked) (ho : s.Orderly) (hw : s.AsWritten (· ≠ 0))
    (hzero : s.rooms.current = 0) {ds : List ObjectDef}
    (hds : s.resources.objectDefs? s.config.inventory = some ds) :
    (equipped s.config s.resources host s.saveState ds).Reloads s := by
  have hroom : s.room = none := by
    rcases hw.room with hnone | ⟨hne, -⟩
    · exact hnone.1
    · exact absurd hzero hne
  have hitems := s.resources.fromText_objectChunks s.config.inventory
  have hsound : s.library.Sound (s.resources.objectChunks s.config.inventory) := by
    refine hs.sound.sublist (List.sublist_append_left _ _) fun {id c} hc => ?_
    have hid := (ho.owned.stored_iff id).1 ⟨c, hc⟩
    rw [roomIds, hroom, Option.map_none, Option.getD_none, List.append_nil] at hid
    exact hs.inventory id hid c hc
  exact ⟨rfl, rfl, rfl, rfl, _, _, hsound, fun _ hc => hc, hitems.fresh, hitems.distinct,
    equipped_library s.saveState hds⟩

theorem reloads_installRoom (hs : s.Stocked) (hw : s.AsWritten (· ≠ 0)) (hne : s.rooms.current ≠ 0)
    {ds : List ObjectDef} (hds : s.resources.objectDefs? s.config.inventory = some ds) {d : RoomDef}
    (hd : s.resources.roomDef? s.rooms.current = some d) :
    ((equipped s.config s.resources host s.saveState ds).installRoom s.rooms.current d).Reloads s := by
  obtain ⟨-, hroom⟩ := hw.room.resolve_left fun hnone => hne hnone.2
  have hchunks : s.resources.roomChunks s.rooms.current = d.chunkList := by
    rw [Resources.roomChunks, hd]
    rfl
  refine ⟨installRoom_resources _ _ _, installRoom_rooms _ _ _, installRoom_conversation _ _ _, ?_, s.texts,
    s.texts, hs.sound, fun _ hc => hc, hs.sound.fresh, hs.sound.distinct, ?_⟩
  · have hvars : (equipped s.config s.resources host s.saveState ds).vars =
        { s.vars with lastChanged := s.vars.lastChanged + 1 } := Variables.ofSnapshot_snapshot s.vars
    have hdeclared :
        ((equipped s.config s.resources host s.saveState ds).installRoom s.rooms.current d).declared = s.declared :=
      declared_eq_of_outline (by rw [hroom, hd]; rfl)
    have hsame : (equipped s.config s.resources host s.saveState ds).vars.SameDeclarations s.declared := by
      rw [hvars]
      exact ⟨hw.vars.localNames, hw.vars.randoms⟩
    rw [← hdeclared] at hsame
    exact Room.declareVariables_of_declares hsame
  · have hlibrary : (equipped s.config s.resources host s.saveState ds).library =
        (Library.adoptAll (s.resources.objectChunks s.config.inventory)
          (Library.empty.restoreLines s.library.lines)).2 := equipped_library s.saveState hds
    rw [Library.resumed, texts, Library.adoptAll_append, hchunks, ← hlibrary]
    exact Room.library_install s.rooms.current d _

theorem saveState_restore (hs : s.Stocked) (ho : s.Orderly) (hw : s.AsWritten (· ≠ 0))
    (hnow : host.now = s.host.now)
    (hload : ((start s.config s.resources host).restore s.saveState).1 = .ok ()) :
    ((start s.config s.resources host).restore s.saveState).2.saveState = resaved s.saveState := by
  cases hds : s.resources.objectDefs? s.config.inventory with
  | none =>
      obtain ⟨e, he⟩ := loadInventory_of_none (s := reopened s.config s.resources host s.saveState) hds
      rw [restore_start, he] at hload
      cases hload
  | some ds =>
      rw [restore_start_of_some _ hds] at hload ⊢
      unfold resumeRoom at hload ⊢
      split at hload
      · next hzero =>
        rw [if_pos hzero]
        exact ((reloads_equipped hs ho hw hzero hds).saveState_resume hw ho hnow).2
      · next hne =>
        rw [if_neg hne]
        cases hd : s.resources.roomDef? s.rooms.current with
        | none =>
            obtain ⟨e, he⟩ := loadRoom_of_none (s := equipped s.config s.resources host s.saveState ds) hd
            rw [show (equipped s.config s.resources host s.saveState ds).rooms.current =
              s.rooms.current from rfl, he] at hload
            cases hload
        | some d =>
            rw [show (equipped s.config s.resources host s.saveState ds).rooms.current =
              s.rooms.current from rfl,
              loadRoom_of_some (s := equipped s.config s.resources host s.saveState ds) hd]
            exact ((reloads_installRoom hs hw hne hds hd).saveState_resume hw ho hnow).2

theorem resaved_of_short (hs : s.Stocked) (ho : s.Orderly)
    (hshort : ∀ id c, s.library.store.get? id = some c → c.actions.length < Script.removedLine.toNat) :
    resaved s.saveState =
      { s.saveState with vars := { s.saveState.vars with lastChanged := s.saveState.vars.lastChanged + 1 } } := by
  have hkept : ∀ script ∈ s.saveState.interpreter.queue,
      (script.signature, Script.removedLine) ∉ s.saveState.scriptLines := by
    intro script hscript hmem
    obtain ⟨q, hq, hsaved⟩ := List.mem_filterMap.1 hscript
    obtain ⟨c, hc, rfl⟩ := Option.map_eq_some_iff.1 hsaved
    have hline := (Library.mem_lines_iff.1 hmem).1
    have hchunk := hs.sound.chunk?_of_stored hc (ho.ready q hq c hc)
    rw [Library.lineOf?_of_chunk? hchunk, Option.some.injEq] at hline
    exact (Library.toUInt32_of_short (Nat.lt_of_le_of_lt (hs.sound.inRange hc) (hshort _ c hc))).1 hline
  unfold resaved
  rw [List.filter_eq_self.2 fun script hscript => by simpa using hkept script hscript]

/-! ### Saving after loading -/

/-- What is saved, loaded into a new session and saved again is the same, but for the count of writes; and
a queued script is left out if its line is the mark of removed chunks, which takes a chunk of that
length. -/
theorem saveState_load_save (config : SessionConfig) (resources : Resources) (host host' : Host)
    (ops : List Operation) {bytes : MessagePack.Bytes} (hrooms : ∀ op ∈ ops, op.Enters (· ≠ 0))
    (hname : ∀ id, config.inventory ≠ Room.resourceName id) :
    let s := (start config resources host).run ops
    let loaded := (start config resources host').load bytes
    host'.now = s.host.now → s.save = .ok bytes → loaded.1 = .ok () →
      loaded.2.saveState = resaved s.saveState ∧
      ((∀ id c, s.library.store.get? id = some c → c.actions.length < Script.removedLine.toNat) →
        loaded.2.saveState = { s.saveState with
          vars := { s.saveState.vars with lastChanged := s.saveState.vars.lastChanged + 1 } }) := by
  intro s loaded hnow hsave hload
  have hchanges : (start config resources host).Changes (· ≠ 0) s :=
    changes_run (fun _ => id) _ hrooms
  obtain ⟨hconfig, hresources⟩ := game_of_changes hchanges
  have ho : s.Orderly := (orderly_start config resources host).changes hchanges
  have hw : s.AsWritten (· ≠ 0) := (asWritten_start config resources host).changes hchanges
  have hs : s.Stocked := (stocked_start config resources host hname).changes
    (orderly_start config resources host) hchanges
  suffices hsaved : loaded.2.saveState = resaved s.saveState from
    ⟨hsaved, fun hshort => hsaved.trans (resaved_of_short hs ho hshort)⟩
  have hrestore : loaded = (start s.config s.resources host').restore s.saveState := by
    rw [hconfig, hresources]
    exact load_of_save hsave _
  rw [hrestore] at hload ⊢
  exact saveState_restore hs ho hw hnow hload

/-- A room whose entrance script waits before it writes. -/
def courtyard : Resources :=
  Resources.inMemory.insert "0100.rom" "Enter\nCond\nDelay 20\nSet A\n".toUTF8.toList

def courtyardRun : List Operation := [.loadInventory, .enterRoom 100, .tick]

theorem save_courtyard : ((start .standard courtyard (.silent false)).run courtyardRun).save =
    .ok (((start .standard courtyard (.silent false)).run courtyardRun).save.toOption.getD []) := by
  decide +kernel

theorem standard_inventory_ne (id : UInt16) : SessionConfig.standard.inventory ≠ Room.resourceName id := by
  intro h
  have hlast := congrArg (fun name => name.toList.getLast?) h
  simp [Room.resourceName, SessionConfig.standard] at hlast

/-- The game is saved during the delay, and so behind the first action of the script. -/
theorem saveState_load_save_courtyard :
    let s := (start .standard courtyard (.silent false)).run courtyardRun
    let bytes := s.save.toOption.getD []
    let loaded := (start .standard courtyard (.silent false)).load bytes
    s.interpreter.queue.length = 1 ∧ s.saveState.interpreter.queue = [⟨"0100.rom:2", .delay, 20⟩] ∧
      s.saveState.scriptLines = [("0100.rom:2", 1)] ∧ s.save = .ok bytes ∧ loaded.1 = .ok () ∧
      loaded.2.saveState = { s.saveState with
        vars := { s.saveState.vars with lastChanged := s.saveState.vars.lastChanged + 1 } } := by
  intro s bytes loaded
  have hrooms : ∀ op ∈ courtyardRun, op.Enters (· ≠ 0) := by
    rintro op hop id rfl
    simp only [courtyardRun, List.mem_cons, List.not_mem_nil, or_false, reduceCtorEq, false_or,
      Operation.enterRoom.injEq] at hop
    rw [hop]
    decide
  have hrecord : s.interpreter.queue.length = 1 ∧ s.saveState.interpreter.queue = [⟨"0100.rom:2", .delay, 20⟩] ∧
      s.saveState.scriptLines = [("0100.rom:2", 1)] := by decide +kernel
  have hload : loaded.1 = .ok () := by decide +kernel
  have hslots : ∀ slot ∈ s.library.store.slots, ∀ c ∈ slot.chunk,
      c.actions.length < Script.removedLine.toNat := by decide +kernel
  refine ⟨hrecord.1, hrecord.2.1, hrecord.2.2, save_courtyard, hload, ?_⟩
  refine (saveState_load_save .standard courtyard (.silent false) (.silent false) courtyardRun hrooms
    standard_inventory_ne (by decide +kernel) save_courtyard hload).2 fun id c hc => ?_
  exact hslots _ (List.mem_of_getElem? (Script.Store.get?_eq_some_iff.1 hc)) c rfl

/-- A saved game loads unless it was saved where a room could not be entered. -/
theorem load_save_ok_iff (config : SessionConfig) (resources : Resources) (host host' : Host)
    (ops : List Operation) {bytes : MessagePack.Bytes}
    (hinventory : (resources.objectDefs? config.inventory).isSome) :
    let s := (start config resources host).run ops
    s.save = .ok bytes →
      (((start config resources host').load bytes).1 = .ok () ↔ s.rooms.current = 0 ∨ s.room.isSome) := by
  intro s hsave
  have hchanges : (start config resources host).Changes (fun _ => True) s :=
    changes_run (fun _ _ => trivial) _ fun _ _ _ _ => trivial
  obtain ⟨ds, hds⟩ := Option.isSome_iff_exists.1 hinventory
  rw [load_of_save hsave, restore_start_of_some _ hds]
  have hresources : resources = s.resources := (game_of_changes hchanges).2.symm
  exact resumeRoom_ok_iff ((asWritten_start config resources host).changes hchanges) hresources rfl rfl

theorem load_save_ok_courtyard :
    let s := (start .standard courtyard (.silent false)).run courtyardRun
    let bytes := s.save.toOption.getD []
    (courtyard.objectDefs? SessionConfig.standard.inventory).isSome ∧ s.save = .ok bytes ∧
      ((start .standard courtyard (.silent false)).load bytes).1 = .ok () := by
  intro s bytes
  have hinventory : (courtyard.objectDefs? SessionConfig.standard.inventory).isSome := by decide +kernel
  refine ⟨hinventory, save_courtyard, ?_⟩
  exact (load_save_ok_iff .standard courtyard (.silent false) (.silent false) courtyardRun hinventory
    save_courtyard).2 (.inr (by decide +kernel))

/-- After a room could not be entered, what is saved does not load. -/
theorem not_load_save_missingRoom :
    ¬∀ (config : SessionConfig) (resources : Resources) (host host' : Host) (ops : List Operation)
      (bytes : MessagePack.Bytes), (resources.objectDefs? config.inventory).isSome →
      ((start config resources host).run ops).save = .ok bytes →
        ((start config resources host').load bytes).1 = .ok () := by
  intro h
  have hload := h .standard .inMemory (.silent false) (.silent false) [.enterRoom 4242]
    (((start .standard .inMemory (.silent false)).run [.enterRoom 4242]).save.toOption.getD [])
    (by decide +kernel) (by decide +kernel)
  revert hload
  decide +kernel

end Adventure.Session
