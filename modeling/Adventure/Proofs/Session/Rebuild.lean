import Adventure.Proofs.Session.Load
/-! What loading a saved game leaves behind when it fails. A record that cannot be read changes nothing. Any other
one takes the place of the present game before its inventory, its room and its conversation are read, one after
the other, and what was read by then stays. -/
namespace Adventure

open Script (InterpreterState Library)

/-- The definition with which a saved game comes into its room. Room 0 is no room. -/
def Resources.Reaches (r : Resources) (id : UInt16) : Option RoomDef → Prop
  | none => id = 0
  | some d => id ≠ 0 ∧ r.roomDef? id = some d

namespace Session

variable {s s' t : Session} {state : SaveState} {ds : List ObjectDef} {d : RoomDef} {d? : Option RoomDef}
  {e : Error}

/-! ### What has been rebuilt -/

/-- The library without its chunks, where the lines of a saved game wait. -/
def awaiting (s : Session) (state : SaveState) : Library :=
  (s.library.releaseAll (s.roomIds ++ s.inventory.chunkIds)).restoreLines state.scriptLines

/-- What there is of a saved game once these definitions have been installed and these scripts queued. Nothing
is left of the game that was there before. -/
structure Rebuilt (s : Session) (state : SaveState) (ds : List ObjectDef) (d? : Option RoomDef)
    (scripts : InterpreterState) (s' : Session) : Prop where
  rooms : s'.rooms = state.rooms
  vars : s'.vars = (s'.room.map (Room.declareVariables · (.ofSnapshot state.vars))).getD (.ofSnapshot state.vars)
  library : s'.library = (Library.adoptAll
    (ds.flatMap ObjectDef.chunkList ++ (d?.map RoomDef.chunkList).getD []) (s.awaiting state)).2
  interpreter : s'.interpreter = s.interpreter.restore scripts s'.library s.host.now
  inventory : s'.inventory = (Container.install ds (s.awaiting state)).1
  room : s'.room = d?.map fun d =>
    (Room.install state.rooms.current d (Container.install ds (s.awaiting state)).2).1
  conversation : s'.conversation = none
  now : s'.host.now = s.host.now

/-- Where loading a saved game fails, and what has been installed and queued by then. -/
inductive StopsShort (s : Session) (state : SaveState) :
    List ObjectDef → Option RoomDef → InterpreterState → Prop where
  | inventory (hnone : s.resources.objectDefs? s.config.inventory = none) :
      StopsShort s state [] none ⟨[], []⟩
  | room {ds : List ObjectDef} (hds : s.resources.objectDefs? s.config.inventory = some ds)
      (hne : state.rooms.current ≠ 0) (hnone : s.resources.roomDef? state.rooms.current = none) :
      StopsShort s state ds none ⟨[], []⟩
  | conversation {ds : List ObjectDef} {d? : Option RoomDef} {snapshot : ConversationSnapshot}
      (hds : s.resources.objectDefs? s.config.inventory = some ds)
      (hroom : s.resources.Reaches state.rooms.current d?) (hsnapshot : state.conversation = some snapshot)
      (hcontains : s.resources.contains (Conversation.resourceName snapshot.name) = true)
      (hnone : s.resources.conversation? snapshot.name = none) :
      StopsShort s state ds d? state.interpreter

theorem rebuilt_installInventory (s : Session) (state : SaveState) (ds : List ObjectDef) :
    s.Rebuilt state ds none ⟨[], []⟩ ((s.vacated state).installInventory ds) := by
  rw [s.vacated_eq state]
  refine ⟨rfl, rfl, ?_, rfl, rfl, rfl, rfl, rfl⟩
  rw [Option.map_none, Option.getD_none, List.append_nil]
  exact Container.library_install ds _

theorem rebuilt_vacated (s : Session) (state : SaveState) :
    s.Rebuilt state [] none ⟨[], []⟩ (s.vacated state) := by
  rw [s.vacated_eq state]
  exact ⟨rfl, rfl, rfl, rfl, rfl, rfl, rfl, rfl⟩

theorem rebuilt_installRoom (s : Session) (state : SaveState) (ds : List ObjectDef) (d : RoomDef) :
    s.Rebuilt state ds (some d) ⟨[], []⟩
      (((s.vacated state).installInventory ds).installRoom state.rooms.current d) := by
  rw [s.vacated_eq state]
  refine ⟨rfl, rfl, ?_, rfl, rfl, rfl, rfl, rfl⟩
  rw [Option.map_some, Option.getD_some, Library.adoptAll_append, ← Container.library_install]
  exact Room.library_install state.rooms.current d _

theorem Rebuilt.requeued (h : s.Rebuilt state ds d? ⟨[], []⟩ t) :
    s.Rebuilt state ds d? state.interpreter (t.requeued state) where
  rooms := h.rooms
  vars := h.vars
  library := h.library
  interpreter := by
    change t.interpreter.restore state.interpreter t.library t.host.now = _
    rw [h.now, h.interpreter]
    rfl
  inventory := h.inventory
  room := h.room
  conversation := h.conversation
  now := h.now

/-! ### Where loading fails -/

theorem startConversation_error {name : String} (h : s.startConversation name = (.error e, s')) :
    s' = s ∧ s.resources.contains (Conversation.resourceName name) = true ∧
      s.resources.conversation? name = none := by
  cases hbytes : s.resources.get? (Conversation.resourceName name) with
  | none => simp [startConversation, Resources.contains_eq, hbytes] at h
  | some bytes =>
      cases hparse : Conversation.parse name (.ofBytes (Conversation.resourceName name) bytes) with
      | ok c => simp [startConversation, Resources.contains_eq, hbytes, readText_of_some hbytes, hparse] at h
      | error cause =>
          simp only [startConversation, Resources.contains_eq, hbytes, readText_of_some hbytes, hparse,
            Option.isSome_some, Bool.not_true, Bool.false_eq_true, if_false, Prod.mk.injEq] at h
          exact ⟨h.2.symm, by simp [Resources.contains_eq, hbytes],
            by simp [Resources.conversation?, hbytes, hparse, Except.toOption]⟩

theorem resume_error (h : t.resume state = (.error e, s')) :
    s' = t.requeued state ∧ ∃ snapshot, state.conversation = some snapshot ∧
      t.resources.contains (Conversation.resourceName snapshot.name) = true ∧
      t.resources.conversation? snapshot.name = none := by
  unfold resume at h
  dsimp only at h
  split at h
  · cases h
  · next snapshot hsnapshot =>
    unfold resumeConversation at h
    split at h
    · next hstart =>
      cases h
      obtain ⟨hsame, hcontains, hnone⟩ := startConversation_error hstart
      exact ⟨hsame, snapshot, hsnapshot, hcontains, hnone⟩
    · cases h
    · cases h

theorem dropInventory_vacated (s : Session) (state : SaveState) :
    (s.vacated state).dropInventory = s.vacated state := by
  rw [s.vacated_eq state]
  rfl

/-- The room and the conversation come last, and a failure there leaves what has been installed before. -/
theorem resumeRoom_error (hds : s.resources.objectDefs? s.config.inventory = some ds)
    (h : ((s.vacated state).installInventory ds).resumeRoom state = (.error e, s')) :
    ∃ d? scripts, s.StopsShort state ds d? scripts ∧ s.Rebuilt state ds d? scripts s' := by
  have hbuilt := s.rebuilt_installInventory state ds
  have hresources : ((s.vacated state).installInventory ds).resources = s.resources := by
    rw [s.vacated_eq state]
    rfl
  unfold resumeRoom at h
  rw [hbuilt.rooms] at h
  split at h
  · next hzero =>
    obtain ⟨rfl, snapshot, hsnapshot, hcontains, hnone⟩ := resume_error h
    rw [hresources] at hcontains hnone
    exact ⟨none, _, .conversation hds hzero hsnapshot hcontains hnone, hbuilt.requeued⟩
  · next hne =>
    cases hd : s.resources.roomDef? state.rooms.current with
    | none =>
        obtain ⟨cause, hload⟩ := loadRoom_of_none (hresources ▸ hd)
        rw [hload] at h
        cases h
        exact ⟨none, _, .room hds hne hd, hbuilt⟩
    | some d =>
        rw [loadRoom_of_some (hresources ▸ hd)] at h
        obtain ⟨rfl, snapshot, hsnapshot, hcontains, hnone⟩ := resume_error h
        rw [installRoom_resources, hresources] at hcontains hnone
        exact ⟨some d, _, .conversation hds ⟨hne, hd⟩ hsnapshot hcontains hnone,
          (s.rebuilt_installRoom state ds d).requeued⟩

theorem restore_error (h : s.restore state = (.error e, s')) :
    ∃ ds d? scripts, s.StopsShort state ds d? scripts ∧ s.Rebuilt state ds d? scripts s' := by
  have hdefs : (s.vacated state).resources.objectDefs? (s.vacated state).config.inventory =
      s.resources.objectDefs? s.config.inventory := by
    rw [s.vacated_eq state]
  rw [restore_eq] at h
  cases hds : s.resources.objectDefs? s.config.inventory with
  | none =>
      obtain ⟨cause, hload⟩ := loadInventory_of_none (hdefs.trans hds)
      rw [hload, dropInventory_vacated] at h
      cases h
      exact ⟨[], none, _, .inventory hds, s.rebuilt_vacated state⟩
  | some ds =>
      rw [loadInventory_of_some (hdefs.trans hds), dropInventory_vacated] at h
      exact ⟨ds, resumeRoom_error hds h⟩

/-- A failed load changes nothing if the record cannot be read. Otherwise the game that was there is gone, and
there is as much of the saved one as was read before the inventory, the room or the conversation failed. -/
theorem load_error_cases (s : Session) (bytes : MessagePack.Bytes) {e : Error} {s' : Session}
    (h : s.load bytes = (.error e, s')) :
    (∃ cause, SaveState.ofBytes bytes = .error cause ∧ e = .decoding cause ∧ s' = s) ∨
      ∃ state ds d? scripts, SaveState.ofBytes bytes = .ok state ∧ s.StopsShort state ds d? scripts ∧
        s.Rebuilt state ds d? scripts s' := by
  unfold load at h
  cases hstate : SaveState.ofBytes bytes with
  | error cause =>
      rw [hstate] at h
      obtain ⟨he, hs⟩ := Prod.mk.inj h
      exact .inl ⟨cause, rfl, (Except.error.inj he).symm, hs.symm⟩
  | ok state =>
      rw [hstate] at h
      obtain ⟨ds, d?, scripts, hstops, hbuilt⟩ := restore_error h
      exact .inr ⟨state, ds, d?, scripts, rfl, hstops, hbuilt⟩

/-! ### A saved game of another place -/

/-- Everything of the game is as it was. -/
structure Intact (s s' : Session) : Prop where
  rooms : s'.rooms = s.rooms
  vars : s'.vars = s.vars
  library : s'.library = s.library
  queue : s'.interpreter.queue = s.interpreter.queue
  bindings : s'.interpreter.bindings = s.interpreter.bindings
  room : s'.room = s.room
  inventory : s'.inventory = s.inventory
  conversation : s'.conversation = s.conversation

/-- A game that has a terrace and no courtyard. -/
def terrace : Resources :=
  Resources.inMemory.insert "0101.rom" "Enter\nCond\nDelay 20\nSet A\n".toUTF8.toList

def onTerrace : Session :=
  (start .standard terrace (.silent false)).run [.loadInventory, .enterRoom 101, .tick]

/-- A game that was saved in the courtyard. -/
def courtyardRecord : MessagePack.Bytes :=
  ((start .standard courtyard (.silent false)).run courtyardRun).save.toOption.getD []

theorem load_onTerrace : onTerrace.load courtyardRecord =
    (.error (.opening "0100.rom" ⟨"0100.rom", terrace.root⟩), (onTerrace.load courtyardRecord).2) :=
  Prod.ext (by decide +kernel) rfl

theorem load_error_cases_onTerrace :
    let s' := (onTerrace.load courtyardRecord).2
    onTerrace.load courtyardRecord = (.error (.opening "0100.rom" ⟨"0100.rom", terrace.root⟩), s') ∧
      ((∃ cause, SaveState.ofBytes courtyardRecord = .error cause ∧
          Error.opening "0100.rom" ⟨"0100.rom", terrace.root⟩ = .decoding cause ∧ s' = onTerrace) ∨
        ∃ state ds d? scripts, SaveState.ofBytes courtyardRecord = .ok state ∧
          onTerrace.StopsShort state ds d? scripts ∧ onTerrace.Rebuilt state ds d? scripts s') ∧
      s'.rooms.current = 100 ∧ s'.room = none := by
  intro s'
  exact ⟨load_onTerrace, load_error_cases onTerrace courtyardRecord load_onTerrace, by decide +kernel,
    by decide +kernel⟩

/-- On the terrace the load of a game of the courtyard fails, and the terrace is left nevertheless. -/
theorem not_intact_of_failed_load :
    ¬∀ (s : Session) (bytes : MessagePack.Bytes) (e : Error) (s' : Session),
      s.load bytes = (.error e, s') → s.Intact s' := by
  intro h
  have hrooms := (h onTerrace courtyardRecord _ _ load_onTerrace).rooms
  revert hrooms
  decide +kernel

end Session
end Adventure
