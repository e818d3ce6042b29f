import Mathlib.Data.List.Induction
import Adventure.Proofs.Script.Rest
import Adventure.Proofs.Session.Ownership
/-! Where scripts start in a session. Every chunk that is not queued is at rest, until a room is left
while a script of the inventory is under way: the script leaves the queue, and its chunk stays where it
was. -/
namespace Adventure.Session

open Script (Chunk ChunkId Library Playback Queued)

variable {P : UInt16 → Prop} {s s' : Session} {id : UInt16}

/-! ### The inventory -/

/-- The chunks of the inventory that may run stand at their start. -/
def InventoryAtRest (s : Session) : Prop :=
  ∀ id ∈ s.inventory.chunkIds, ∀ c, s.library.store.get? id = some c → c.retired = false → c.position = 0

/-- A script of the inventory is queued, and its chunk is past the first action. -/
def Underway (s : Session) : Prop :=
  ∃ q ∈ s.interpreter.queue, q.chunk ∈ s.inventory.chunkIds ∧
    ∃ c, s.library.store.get? q.chunk = some c ∧ c.position ≠ 0

theorem inventoryAtRest_iff (ho : s.Orderly) (h : s.playback.AtRest) : s.InventoryAtRest ↔ ¬s.Underway := by
  constructor
  · rintro hrest ⟨q, hq, hid, c, hc, hpos⟩
    exact hpos (hrest q.chunk hid c hc (ho.ready q hq c hc))
  · intro hunder id hid c hc hr
    by_cases hqueued : id ∈ s.interpreter.queue.map Queued.chunk
    · obtain ⟨q, hq, rfl⟩ := List.mem_map.1 hqueued
      by_contra hpos
      exact hunder ⟨q, hq, hid, c, hc, hpos⟩
    · exact h id c hc hr hqueued

theorem inventoryAtRest_congr (hlibrary : s'.library = s.library) (hinventory : s'.inventory = s.inventory) :
    s'.InventoryAtRest ↔ s.InventoryAtRest := by
  unfold InventoryAtRest
  rw [hlibrary, hinventory]

theorem Moved.inventoryAtRest_iff (hs : s.Moved id s') (ho : s.Orderly) :
    s'.InventoryAtRest ↔ s.InventoryAtRest := by
  obtain ⟨-, hlib⟩ := Prod.mk.inj hs.chunks
  have howned := ho.owned.perm List.perm_append_comm
  unfold InventoryAtRest
  rw [hs.inventory, hlib]
  refine forall₂_congr fun j hj => ?_
  rw [howned.get?_exchange _ hj]

/-- On arrival the queue is empty and the chunks of the room are as they were read. -/
theorem Moved.atRest_iff (hs : s.Moved id s') (ho : s.Orderly) :
    s'.playback.AtRest ↔ s.InventoryAtRest := by
  obtain ⟨-, hlib⟩ := Prod.mk.inj hs.chunks
  have howned := ho.owned.perm List.perm_append_comm
  have hqueue : s'.playback.interpreter.queue = [] := by
    rw [show s'.playback.interpreter = _ from hs.interpreter]
    rfl
  constructor
  · intro h j hj c hc hr
    refine h j c ?_ hr (by simp [hqueue])
    rw [show s'.playback.library = _ from hlib, howned.get?_exchange _ hj, hc]
  · intro h j c hc hr _
    rw [show s'.playback.library = _ from hlib] at hc
    rcases Library.stored_of_exchange ho.owned.sound ho.noneWaiting hc with ⟨-, hmem⟩ | ⟨-, hc, hgone⟩
    · exact Chunk.position_of_fresh ((s.resources.fromText_roomChunks id).fresh c hmem)
    · have hj := (ho.owned.stored_iff j).1 ⟨c, hc⟩
      exact h j ((List.mem_append.1 hj).resolve_right hgone) c hc hr

/-! ### Entering a room -/

theorem queueEntrances_library (s : Session) (ids : List ChunkId) :
    (s.queueEntrances ids).library = s.library := by
  induction ids generalizing s with
  | nil => rfl
  | cons id ids ih =>
      rw [queueEntrances, List.foldl_cons, ← queueEntrances, ih]
      exact s.playback.interpret_library _ _

theorem queueEntrances_inventory (s : Session) (ids : List ChunkId) :
    (s.queueEntrances ids).inventory = s.inventory := by
  induction ids generalizing s with
  | nil => rfl
  | cons id ids ih =>
      rw [queueEntrances, List.foldl_cons, ← queueEntrances, ih]

theorem queueEntrances_queue (s : Session) (ids : List ChunkId) {q : Queued}
    (hq : q ∈ (s.queueEntrances ids).interpreter.queue) : q ∈ s.interpreter.queue ∨
      q.wait = .none ∧ q.chunk ∈ ids ∧
        ∃ c, s.library.store.get? q.chunk = some c ∧ c.retired = false ∧ c.actions ≠ [] := by
  induction ids generalizing s with
  | nil => exact .inl hq
  | cons id ids ih =>
      rw [queueEntrances, List.foldl_cons, ← queueEntrances] at hq
      have hlibrary := s.playback.interpret_library [id] s.rooms.previous
      rcases ih _ hq with hq | ⟨hwait, hmem, hstored⟩
      · rw [interpreter, Playback.interpret_queue, List.mem_append] at hq
        rcases hq with hq | hq
        · exact .inl hq
        · obtain ⟨j, hj, rfl⟩ := List.mem_map.1 hq
          obtain ⟨hmem, c, hc, hcand⟩ := Playback.candidate_of_interpret (Option.mem_toList.1 hj)
          exact .inr ⟨rfl, List.mem_cons.2 (.inl (List.mem_singleton.1 hmem)), c, hc,
            Playback.retired_of_isCandidate hcand, Playback.actions_of_isCandidate hcand⟩
      · refine .inr ⟨hwait, List.mem_cons_of_mem id hmem, ?_⟩
        rwa [show Session.library { s with playback := _ } = s.library from hlibrary] at hstored

theorem atRest_queueEntrances (h : s.playback.AtRest) (ids : List ChunkId) :
    (s.queueEntrances ids).playback.AtRest := by
  induction ids generalizing s with
  | nil => exact h
  | cons id ids ih =>
      rw [queueEntrances, List.foldl_cons, ← queueEntrances]
      exact ih (h.interpret [id] s.rooms.previous)

theorem enterRoom_eq_queueEntrances (s : Session) (id : UInt16) :
    ∃ ids, (s.enterRoom id).2 = (s.moveTo id).2.queueEntrances ids ∧ ids ⊆ (s.moveTo id).2.roomIds := by
  rw [enterRoom_eq]
  split
  · next heq => exact ⟨[], by rw [heq]; rfl, List.nil_subset _⟩
  · next t heq =>
    refine ⟨_, by rw [heq], ?_⟩
    rw [heq, roomIds]
    cases t.room with
    | none => exact List.nil_subset _
    | some room => exact List.subset_append_right _ _

theorem inventoryAtRest_enterRoom (ho : s.Orderly) (id : UInt16) :
    (s.enterRoom id).2.InventoryAtRest ↔ s.InventoryAtRest := by
  obtain ⟨ids, henter, -⟩ := s.enterRoom_eq_queueEntrances id
  rw [henter, inventoryAtRest_congr (queueEntrances_library _ ids) (queueEntrances_inventory _ ids)]
  exact (s.moved_moveTo id).inventoryAtRest_iff ho

/-- After entering a room the chunks are at rest just if those of the inventory are. -/
theorem atRest_enterRoom (ho : s.Orderly) (id : UInt16) :
    (s.enterRoom id).2.playback.AtRest ↔ s.InventoryAtRest := by
  have hmoved := s.moved_moveTo id
  obtain ⟨ids, henter, hids⟩ := s.enterRoom_eq_queueEntrances id
  have howned : (s.moveTo id).2.Owned := Owned.arrives ho.owned hmoved.arrives
  have hqueue : (s.moveTo id).2.interpreter.queue = [] := by
    rw [hmoved.interpreter]
    rfl
  rw [henter]
  constructor
  · intro h
    refine (hmoved.inventoryAtRest_iff ho).1 fun j hj c hc hr => ?_
    refine h j c ?_ hr fun hqueued => ?_
    · rwa [← queueEntrances_library _ ids] at hc
    · -- Entrance scripts run chunks of the room, not of the inventory.
      obtain ⟨q, hq, rfl⟩ := List.mem_map.1 hqueued
      rcases queueEntrances_queue _ ids hq with hq | ⟨-, hmem, -⟩
      · rw [hqueue] at hq
        cases hq
      · exact (List.nodup_append.1 howned.nodup).2.2 _ hj _ (hids hmem) rfl
  · intro h
    exact atRest_queueEntrances ((hmoved.atRest_iff ho).2 h) ids

theorem starts_enterRoom (ho : s.Orderly) (id : UInt16) :
    ∀ q ∈ (s.enterRoom id).2.interpreter.queue, (s.enterRoom id).2.playback.Starts q.chunk := by
  have hmoved := s.moved_moveTo id
  obtain ⟨ids, henter, hids⟩ := s.enterRoom_eq_queueEntrances id
  have hqueue : (s.moveTo id).2.interpreter.queue = [] := by
    rw [hmoved.interpreter]
    rfl
  obtain ⟨hroomIds, hlib⟩ := Prod.mk.inj hmoved.chunks
  have hnew : ∀ q ∈ ((s.moveTo id).2.queueEntrances ids).interpreter.queue, q.wait = .none ∧ q.chunk ∈ ids ∧
      ∃ c, (s.moveTo id).2.library.store.get? q.chunk = some c ∧ c.retired = false ∧ c.actions ≠ [] := by
    intro q hq
    rcases queueEntrances_queue _ ids hq with hq | hnew
    · rw [hqueue] at hq
      cases hq
    · exact hnew
  rw [henter]
  intro q hq
  obtain ⟨-, hmem, c, hc, -, hactions⟩ := hnew q hq
  have hmem := hids hmem
  rw [hroomIds] at hmem
  obtain ⟨c', hc', hstored⟩ := Library.stored_of_noneWaiting (ho.noneWaiting.releaseAll s.roomIds)
    (Library.releaseAll_store_sound ho.owned.sound s.roomIds) _ q.chunk hmem
  rw [← hlib, hc] at hstored
  cases hstored
  refine Playback.starts_of_wait_none (c := c) (List.mem_map_of_mem hq) (fun q' hq' _ => (hnew q' hq').1) ?_ ?_
    hactions
  · rw [← hc, ← queueEntrances_library _ ids]
    rfl
  · exact Chunk.position_of_fresh ((s.resources.fromText_roomChunks id).fresh c hc')

/-! ### Requests -/

theorem Aside.atRest_iff (h : s.Aside s') : s'.playback.AtRest ↔ s.playback.AtRest := by
  unfold Playback.AtRest
  rw [show s'.playback.library = _ from h.library, show s'.playback.interpreter = _ from h.interpreter]
  rfl

def changesRoom : Script.Request → Bool
  | .changeRoom _ _ => true
  | .startConversation _ => false

theorem inventoryAtRest_fulfil (ho : s.Orderly) (r : Script.Request) :
    (s.fulfil r).InventoryAtRest ↔ s.InventoryAtRest := by
  cases r with
  | startConversation name =>
      have ha := Aside.startConversation s name
      exact inventoryAtRest_congr ha.library ha.inventory
  | changeRoom room position =>
      obtain ⟨host, heq⟩ := s.fulfil_changeRoom room position
      rw [heq]
      exact inventoryAtRest_enterRoom ho room

theorem atRest_fulfil (ho : s.Orderly) (r : Script.Request) : (s.fulfil r).playback.AtRest ↔
    if changesRoom r then s.InventoryAtRest else s.playback.AtRest := by
  cases r with
  | startConversation name => exact (Aside.startConversation s name).atRest_iff
  | changeRoom room position =>
      obtain ⟨host, heq⟩ := s.fulfil_changeRoom room position
      rw [heq]
      exact atRest_enterRoom ho room

/-- The first change of rooms decides. -/
theorem atRest_foldl_fulfil (ho : s.Orderly) (rs : List Script.Request) (hrs : ∀ r ∈ rs, r.Proper) :
    (rs.foldl fulfil s).playback.AtRest ↔
      if rs.any changesRoom then s.InventoryAtRest else s.playback.AtRest := by
  induction rs generalizing s with
  | nil => rfl
  | cons r rs ih =>
      have hr := hrs r List.mem_cons_self
      have hnext : (s.fulfil r).Orderly :=
        ho.changes (changes_fulfil (P := fun _ => True) (fun _ _ => trivial) s hr)
      rw [List.foldl_cons, ih hnext fun r' hr' => hrs r' (List.mem_cons_of_mem r hr'), List.any_cons]
      by_cases hlater : rs.any changesRoom
      · simp [hlater, inventoryAtRest_fulfil ho r]
      · simp [hlater, atRest_fulfil ho r]

/-! ### Operations -/

/-- The session after the turns of a tick, before the requests are fulfilled. -/
def played (s : Session) : Session :=
  { s with playback := (s.playback.tick s.situation).playback }

/-- An operation leaves the room while a script of the inventory is under way. -/
def Interrupts (s : Session) : Operation → Prop
  | .enterRoom _ => s.Underway
  | .tick => (s.playback.tick s.situation).requests.any changesRoom ∧ s.played.Underway
  | _ => False

theorem Orderly.played (ho : s.Orderly) : s.played.Orderly :=
  ho.change (P := fun _ => True) (.play s)

theorem atRest_start (config : SessionConfig) (resources : Resources) (host : Host) :
    (start config resources host).playback.AtRest := by
  intro id c hc
  cases (Script.Store.get?_empty id).symm.trans hc

theorem atRest_loadInventory (ho : s.Orderly) (h : s.playback.AtRest) :
    s.loadInventory.2.playback.AtRest := by
  have hs := s.restocked_loadInventory
  obtain ⟨-, hlib⟩ := Prod.mk.inj hs.chunks
  intro id c hc hr hnot
  rw [show s.loadInventory.2.playback.library = _ from hlib] at hc
  rw [show s.loadInventory.2.playback.interpreter = _ from hs.interpreter] at hnot
  rcases Library.stored_of_exchange ho.owned.sound ho.noneWaiting hc with ⟨-, hmem⟩ | ⟨-, hc, -⟩
  · have hitems := s.resources.fromText_objectChunks s.config.inventory
    exact Chunk.position_of_fresh (hitems.fresh c hmem)
  · exact h id c hc hr hnot

theorem atRest_dispatchVerb (h : s.playback.AtRest) (verb : Verb) (name : String) :
    (s.dispatchVerb verb name).2.playback.AtRest := by
  unfold dispatchVerb
  split
  · exact h
  · exact h.interpret _ _

theorem atRest_tick_iff (ho : s.Orderly) (h : s.playback.AtRest) :
    s.tick.2.playback.AtRest ↔ ¬s.Interrupts .tick := by
  have hplayed : s.played.playback.AtRest := h.tick s.situation
  have hiff := atRest_foldl_fulfil ho.played (s.playback.tick s.situation).requests
    (s.playback.proper_tick s.situation)
  refine hiff.trans ?_
  by_cases hany : (s.playback.tick s.situation).requests.any changesRoom
  · have hinterrupts : s.Interrupts .tick ↔ s.played.Underway := ⟨And.right, And.intro hany⟩
    rw [if_pos hany, hinterrupts]
    exact inventoryAtRest_iff ho.played hplayed
  · rw [if_neg hany]
    exact iff_of_true hplayed fun hinterrupts => hany hinterrupts.1

/-- Where all chunks that are not queued are at rest, they stay so unless the operation interrupts. -/
theorem atRest_perform_iff (ho : s.Orderly) (h : s.playback.AtRest) (op : Operation) :
    (s.perform op).playback.AtRest ↔ ¬s.Interrupts op := by
  have haside : ∀ {s' : Session}, s.Aside s' → (s'.playback.AtRest ↔ ¬False) :=
    fun ha => iff_of_true (ha.atRest_iff.2 h) not_false
  cases op with
  | loadInventory => exact iff_of_true (atRest_loadInventory ho h) not_false
  | enterRoom id => exact (atRest_enterRoom ho id).trans (inventoryAtRest_iff ho h)
  | dispatchVerb verb name => exact iff_of_true (atRest_dispatchVerb h verb name) not_false
  | tick => exact atRest_tick_iff ho h
  | startConversation name => exact haside (.startConversation s name)
  | conversationLines => exact haside (.conversationLines s)
  | pick name => exact haside (.pick s name)
  | hotspotAt x y => exact haside (.hotspotAt s x y)
  | setVariable name value => exact haside (.setVars (s.vars.sameDeclarations_set name value))
  | changeVariables text => exact haside (.setVars (s.vars.sameDeclarations_change text))
  | world host => exact haside (.host s host)

/-! ### Runs -/

theorem run_concat (s : Session) (ops : List Operation) (op : Operation) :
    s.run (ops ++ [op]) = (s.run ops).perform op := by
  rw [run, List.foldl_append]
  rfl

theorem orderly_run (config : SessionConfig) (resources : Resources) (host : Host) (ops : List Operation) :
    ((start config resources host).run ops).Orderly :=
  (orderly_start config resources host).changes
    (changes_run (P := fun _ => True) (fun _ _ => trivial) _ fun _ _ _ _ => trivial)

theorem starts_dispatchVerb (h : s.playback.AtRest) {verb : Verb} {name : String} {id : ChunkId}
    (hnew : id ∉ s.interpreter.queue.map Queued.chunk)
    (hqueued : id ∈ (s.dispatchVerb verb name).2.interpreter.queue.map Queued.chunk) :
    (s.dispatchVerb verb name).2.playback.Starts id := by
  unfold dispatchVerb at hqueued ⊢
  split at hqueued
  · exact absurd hqueued hnew
  · next object _ =>
    have hqueue := s.playback.interpret_queue (object.chunks.get verb) s.rooms.previous
    obtain ⟨q, hq, rfl⟩ := List.mem_map.1 hqueued
    have hq : q ∈ (s.playback.interpret (object.chunks.get verb) s.rooms.previous).2.interpreter.queue := hq
    rw [hqueue, List.mem_append] at hq
    rcases hq with hq | hq
    · exact absurd (List.mem_map_of_mem hq) hnew
    · obtain ⟨id, hid, rfl⟩ := List.mem_map.1 hq
      exact h.starts_interpret (Option.mem_toList.1 hid) hnew

/-- Throughout a run all chunks that are not queued are at rest just if no operation of the run
interrupts. Where they are at rest, a script that comes to the queue anew starts with the first action of
its chunk. -/
theorem atRest_run_iff (config : SessionConfig) (resources : Resources) (host : Host) (ops : List Operation) :
    let after := (start config resources host).run
    ((∀ before, before <+: ops → (after before).playback.AtRest) ↔
      ∀ before op, before ++ [op] <+: ops → ¬(after before).Interrupts op) ∧
    ((after ops).playback.AtRest →
      (∀ verb name id, id ∉ (after ops).interpreter.queue.map Queued.chunk →
        id ∈ ((after ops).dispatchVerb verb name).2.interpreter.queue.map Queued.chunk →
        ((after ops).dispatchVerb verb name).2.playback.Starts id) ∧
      ∀ room, ∀ q ∈ ((after ops).enterRoom room).2.interpreter.queue,
        ((after ops).enterRoom room).2.playback.Starts q.chunk) := by
  intro after
  have horderly : ∀ before, (after before).Orderly := orderly_run config resources host
  refine ⟨⟨fun h before op hop => ?_, fun h before => ?_⟩, fun h => ⟨fun verb name id hnew hqueued => ?_, ?_⟩⟩
  · have hbefore := h before ((List.prefix_append before [op]).trans hop)
    have hstep := h (before ++ [op]) hop
    rw [show after (before ++ [op]) = (after before).perform op from run_concat _ before op] at hstep
    exact (atRest_perform_iff (horderly before) hbefore op).1 hstep
  · induction before using List.reverseRecOn with
    | nil => exact fun _ => atRest_start config resources host
    | append_singleton before op ih =>
        intro hop
        have hbefore := ih ((List.prefix_append before [op]).trans hop)
        rw [show after (before ++ [op]) = (after before).perform op from run_concat _ before op]
        exact (atRest_perform_iff (horderly before) hbefore op).2 (h before op hop)
  · exact starts_dispatchVerb h hnew hqueued
  · exact fun room => starts_enterRoom (horderly ops) room

/-- A lamp to carry, with a script of three actions, and an empty room. -/
def lampGame : Resources :=
  (Resources.inMemory.insert "inv.txt"
    "Objects 1\nObject Lamp\nUse\nCond\nSet A\nSet B\nSet C\n".toUTF8.toList).insert "0100.rom" []

def lampRun : List Operation :=
  [.loadInventory, .enterRoom 100, .dispatchVerb .use "Lamp", .tick, .enterRoom 100]

/-- The script of the lamp is not queued any more and stands at its second action, with which it goes on
when the lamp is used again. -/
theorem lampRun_not_atRest :
    let s := (start .standard lampGame (.silent false)).run lampRun
    let again := (s.dispatchVerb .use "Lamp").2.playback
    ¬s.playback.AtRest ∧
      Script.firstAction? s.situation ⟨0, 0⟩ again.interpreter.queue again.library.store again.openScene =
        some (.ofKeyword "Set" "B") := by
  intro s again
  have hchunk : (s.playback.library.store.get? ⟨0, 0⟩).any (fun c => !c.retired && c.position == 1) = true := by
    decide +kernel
  have hqueue : (⟨0, 0⟩ : ChunkId) ∉ s.playback.interpreter.queue.map Queued.chunk := by decide +kernel
  refine ⟨fun h => ?_, by decide +kernel⟩
  obtain ⟨c, hc, hstands⟩ := (Option.any_eq_true _ _).1 hchunk
  simp only [Bool.and_eq_true, Bool.not_eq_eq_eq_not, Bool.not_true, beq_iff_eq] at hstands
  have hpos := h ⟨0, 0⟩ c hc hstands.1 hqueue
  rw [hstands.2] at hpos
  cases hpos

end Adventure.Session
