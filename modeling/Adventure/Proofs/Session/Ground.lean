import Adventure.Proofs.Session.Rest
import Adventure.Proofs.Walk.Path
/-! The walk map on the grid of a session. Only loading a room changes it, so the grid keeps the map of the
room that was loaded last, also where that room has been left and no other one was loaded. -/
namespace Adventure

open Walk (Grid Point)

/-! ### Maps that a grid may show -/

/-- The map of a resource, if it is there, is well formed and fits the grid. -/
def Resources.walkMap? (r : Resources) (g : Grid) (name : Option String) : Option WalkMap := do
  let bytes ← r.get? (← name)
  let map ← (WalkMap.parse bytes).toOption
  if map.width.toNat = g.width ∧ map.height.toNat = g.height then some map else none

namespace Walk.Grid
variable {g g' : Grid} {m : WalkMap}

/-- The cells are those of the map. Where there is no map, no cell is walkable and no way is found. -/
def Belongs (g : Grid) : Option WalkMap → Prop
  | some m => g.Shows m
  | none => (∀ i, g.isOpen i = false) ∧ ∀ start goal, g.findPath start goal = none

theorem belongs_none_of_closed (h : ∀ i, g.isOpen i = false) : g.Belongs none := by
  refine ⟨h, fun start goal => ?_⟩
  cases hnearest : g.nearest? (g.cellOf start).1 (g.cellOf start).2 with
  | none => rw [findPath, hnearest]; rfl
  | some i =>
      have hopen := isOpen_of_nearest? hnearest
      rw [h i] at hopen
      cases hopen

theorem belongs_clear (g : Grid) : g.clear.Belongs none := by
  refine belongs_none_of_closed fun i => ?_
  by_cases hi : i < g.width * g.height <;> simp [isOpen, clear, hi]

/-- A grid that shows a map is closed only if the map is. -/
theorem Shows.belongs_none_iff (h : g.Shows m) : g.Belongs none ↔ ∀ c, ¬m.IsOpen c := by
  constructor
  · rintro ⟨hclosed, -⟩ c hc
    obtain ⟨i, hopen, -⟩ := h.isOpen_iff.1 hc
    rw [hclosed i] at hopen
    cases hopen
  · intro hm
    refine belongs_none_of_closed fun i => ?_
    by_contra hopen
    exact hm _ (h.isOpen_position.2 (Bool.eq_true_of_not_eq_false hopen))

/-- A grid belongs to a map and to none as well just if the map has no open cell. -/
theorem Belongs.none_iff {map : Option WalkMap} (h : g.Belongs map) :
    g.Belongs none ↔ ∀ m ∈ map, ∀ c, ¬m.IsOpen c := by
  cases map with
  | none => exact iff_of_true h (by simp)
  | some m => simpa using Shows.belongs_none_iff h

theorem sameScreen_of_setMap (h : g.setMap m = .ok g') : g.SameScreen g' := by
  unfold setMap at h
  split at h <;> cases h
  exact ⟨rfl, rfl, rfl⟩

theorem shows_of_setMap (h : g.setMap m = .ok g') : g'.Shows m := by
  unfold setMap at h
  split at h
  · next hsize => cases h; exact ⟨hsize.1, hsize.2, rfl⟩
  · cases h

theorem SameScreen.walkMap?_eq (h : g.SameScreen g') (r : Resources) (name : Option String) :
    r.walkMap? g' name = r.walkMap? g name := by
  unfold Resources.walkMap?
  rw [h.width, h.height]

end Walk.Grid

/-! ### Rooms on the way -/

def Script.Request.room? : Script.Request → Option UInt16
  | .changeRoom room _ => some room
  | .startConversation _ => none

namespace Resources
variable {r : Resources}

/-- The room at the last stop, if that is one that loads. -/
def arrived? (r : Resources) (stops : List (Option UInt16)) : Option RoomDef :=
  stops.getLast?.join.bind r.roomDef?

/-- The last room on the way that loads. -/
def latest? (r : Resources) (stops : List (Option UInt16)) : Option RoomDef :=
  (stops.filterMap (·.bind r.roomDef?)).getLast?

theorem arrived?_concat (stops : List (Option UInt16)) (stop : Option UInt16) :
    r.arrived? (stops ++ [stop]) = stop.bind r.roomDef? := by
  simp [arrived?]

theorem latest?_concat (stops : List (Option UInt16)) (stop : Option UInt16) :
    r.latest? (stops ++ [stop]) = (stop.bind r.roomDef?).or (r.latest? stops) := by
  unfold latest?
  cases hstop : stop.bind r.roomDef? with
  | none => simp [hstop]
  | some d => simp [hstop]

theorem latest?_of_arrived? {stops : List (Option UInt16)} {d : RoomDef} (h : r.arrived? stops = some d) :
    r.latest? stops = some d := by
  cases stops using List.reverseRecOn with
  | nil => cases h
  | append_singleton stops stop =>
      rw [arrived?_concat] at h
      rw [latest?_concat, h, Option.some_or]

end Resources

namespace Session

/-- Where loading a saved game leads. Its room is out of reach if the inventory is malformed. -/
def destination? (s : Session) (state : SaveState) : Option UInt16 := do
  let _ ← s.resources.objectDefs? s.config.inventory
  if state.rooms.current = 0 then none else some state.rooms.current

/-- Where an act heads for, stop after stop. At `none` the room is left for no other one. -/
def stops (s : Session) : Act → List (Option UInt16)
  | .operation (.enterRoom id) => [some id]
  | .operation .tick => ((s.playback.tick s.situation).requests.filterMap Script.Request.room?).map some
  | .operation _ => []
  | .load bytes => (SaveState.ofBytes bytes).toOption.toList.map s.destination?

/-- All the stops of a run. -/
def route (s : Session) : List Act → List (Option UInt16)
  | [] => []
  | a :: as => s.stops a ++ (s.act a).route as

/-- The grid belongs to the present room. -/
def GridBelongs (s : Session) : Prop :=
  s.grid.Belongs (s.resources.walkMap? s.grid (s.room.bind Room.walkMap))

/-! ### What stays -/

/-- Neither the grid nor the room's map changes. -/
structure Stays (s s' : Session) : Prop where
  resources : s'.resources = s.resources
  grid : s'.grid = s.grid
  room : s'.room.map Room.walkMap = s.room.map Room.walkMap

section Stays
variable {s s' : Session}

theorem Stays.refl (s : Session) : s.Stays s := ⟨rfl, rfl, rfl⟩

theorem Aside.stays (h : s.Aside s') : s.Stays s' := by
  refine ⟨h.resources, h.grid, ?_⟩
  have hroom := congrArg (Option.map Room.walkMap) h.room
  simp only [Option.map_map] at hroom
  exact hroom

theorem Restocked.stays (h : s.Restocked s') : s.Stays s' :=
  ⟨h.resources, h.grid, by rw [h.room]⟩

theorem stays_queueEntrances (s : Session) (ids : List Script.ChunkId) : s.Stays (s.queueEntrances ids) := by
  induction ids generalizing s with
  | nil => exact .refl s
  | cons id ids ih => exact ⟨(ih _).resources, (ih _).grid, (ih _).room⟩

theorem stays_dispatchVerb (s : Session) (verb : Verb) (name : String) :
    s.Stays (s.dispatchVerb verb name).2 := by
  unfold dispatchVerb
  split
  · exact .refl s
  · exact ⟨rfl, rfl, rfl⟩

theorem stays_resumeConversation (s : Session) (snapshot : ConversationSnapshot) :
    s.Stays (s.resumeConversation snapshot).2 := by
  obtain ⟨conversation, heq⟩ := s.resumeConversation_eq snapshot
  rw [heq]
  exact ⟨rfl, rfl, rfl⟩

theorem stays_resume (s : Session) (state : SaveState) : s.Stays (s.resume state).2 := by
  unfold resume
  dsimp only
  split
  · exact ⟨rfl, rfl, rfl⟩
  · next snapshot _ =>
    have hresume := stays_resumeConversation
      (s.setInterpreter (s.interpreter.restore state.interpreter s.library s.host.now)) snapshot
    exact ⟨hresume.resources, hresume.grid, hresume.room⟩

end Stays

/-- The room is left. The grid does not change. -/
structure Leaves (s s' : Session) : Prop where
  resources : s'.resources = s.resources
  grid : s'.grid = s.grid
  room : s'.room = none

theorem leaves_between (s : Session) (id : UInt16) : s.Leaves (s.between id) := ⟨rfl, rfl, rfl⟩

theorem leaves_vacated (s : Session) (state : SaveState) : s.Leaves (s.vacated state) := by
  rw [s.vacated_eq state]
  exact ⟨rfl, rfl, rfl⟩

theorem Leaves.dropInventory {s s' : Session} (h : s.Leaves s') : s.Leaves s'.dropInventory :=
  ⟨h.resources, h.grid, h.room⟩

theorem Leaves.installInventory {s s' : Session} (h : s.Leaves s') (ds : List ObjectDef) :
    s.Leaves (s'.installInventory ds) :=
  ⟨h.resources, h.grid, h.room⟩

/-! ### Loading a map -/

/-- A map that fits is taken over, and otherwise the grid is cleared. -/
theorem loadWalkMap_grid (s : Session) (name : Option String) :
    (s.resources.walkMap? s.grid name).map s.grid.setMap = some (.ok (s.loadWalkMap name).grid) ∨
      s.resources.walkMap? s.grid name = none ∧ (s.loadWalkMap name).grid = s.grid.clear := by
  cases name with
  | none => exact .inr ⟨rfl, rfl⟩
  | some name =>
      cases hbytes : s.resources.get? name with
      | none => simp [Resources.walkMap?, loadWalkMap, mapGrid?, hbytes]
      | some bytes =>
          cases hparse : WalkMap.parse bytes with
          | error e => simp [Resources.walkMap?, loadWalkMap, mapGrid?, hbytes, hparse, Except.toOption]
          | ok m =>
              by_cases hsize : m.width.toNat = s.grid.width ∧ m.height.toNat = s.grid.height <;>
                simp [Resources.walkMap?, loadWalkMap, mapGrid?, hbytes, hparse, Except.toOption, Grid.setMap,
                  hsize]

theorem sameScreen_loadWalkMap (s : Session) (name : Option String) :
    s.grid.SameScreen (s.loadWalkMap name).grid := by
  rcases s.loadWalkMap_grid name with htaken | ⟨-, hcleared⟩
  · obtain ⟨m, -, hset⟩ := Option.map_eq_some_iff.1 htaken
    exact Grid.sameScreen_of_setMap hset
  · rw [hcleared]
    exact ⟨rfl, rfl, rfl⟩

theorem belongs_loadWalkMap (s : Session) (name : Option String) :
    (s.loadWalkMap name).grid.Belongs (s.resources.walkMap? s.grid name) := by
  rcases s.loadWalkMap_grid name with htaken | ⟨hnone, hcleared⟩
  · obtain ⟨m, hm, hset⟩ := Option.map_eq_some_iff.1 htaken
    rw [hm]
    exact Grid.shows_of_setMap hset
  · rw [hnone, hcleared]
    exact s.grid.belongs_clear

/-! ### Rooms that come and go -/

/-- A session that has come by the stops. Its room is that of the last one, and the grid belongs to the
last room on the way that loads. -/
structure CameBy (r : Resources) (g₀ : Grid) (stops : List (Option UInt16)) (s : Session) : Prop where
  resources : s.resources = r
  screen : g₀.SameScreen s.grid
  room : s.room.map Room.walkMap = (r.arrived? stops).map RoomDef.walkMap
  grid : s.grid.Belongs (r.walkMap? g₀ ((r.latest? stops).bind RoomDef.walkMap))

section CameBy
variable {r : Resources} {g₀ : Grid} {stops : List (Option UInt16)} {s s' : Session}

theorem cameBy_start (config : SessionConfig) (resources : Resources) (host : Host) :
    CameBy resources (start config resources host).grid [] (start config resources host) where
  resources := rfl
  screen := ⟨rfl, rfl, rfl⟩
  room := rfl
  grid := Grid.belongs_clear (start config resources host).grid

theorem CameBy.stays (h : CameBy r g₀ stops s) (hs : s.Stays s') : CameBy r g₀ stops s' where
  resources := hs.resources.trans h.resources
  screen := hs.grid ▸ h.screen
  room := hs.room.trans h.room
  grid := hs.grid ▸ h.grid

theorem CameBy.leave (h : CameBy r g₀ stops s) (hs : s.Leaves s') {stop : Option UInt16}
    (hstop : stop.bind r.roomDef? = none) : CameBy r g₀ (stops ++ [stop]) s' where
  resources := hs.resources.trans h.resources
  screen := hs.grid ▸ h.screen
  room := by rw [hs.room, Resources.arrived?_concat, hstop]; rfl
  grid := by
    rw [Resources.latest?_concat, hstop, Option.none_or, hs.grid]
    exact h.grid

theorem CameBy.loadRoom (h : CameBy r g₀ stops s) (hs : s.Leaves s') (id : UInt16) :
    CameBy r g₀ (stops ++ [some id]) (s'.loadRoom id).2 := by
  have hr : s'.resources = r := hs.resources.trans h.resources
  cases hd : r.roomDef? id with
  | none =>
      obtain ⟨e, he⟩ := loadRoom_of_none (s := s') (hr ▸ hd)
      rw [he]
      exact h.leave hs hd
  | some d =>
      have hscreen : g₀.SameScreen s'.grid := hs.grid ▸ h.screen
      rw [loadRoom_of_some (s := s') (hr ▸ hd)]
      refine ⟨hr, hscreen.trans (s'.sameScreen_loadWalkMap d.walkMap), ?_, ?_⟩
      · rw [Resources.arrived?_concat, Option.bind_some, hd]
        rfl
      · rw [Resources.latest?_concat, Option.bind_some, hd, Option.some_or, Option.bind_some,
          ← hscreen.walkMap?_eq, ← hr]
        exact s'.belongs_loadWalkMap d.walkMap

theorem CameBy.enterRoom (h : CameBy r g₀ stops s) (id : UInt16) :
    CameBy r g₀ (stops ++ [some id]) (s.enterRoom id).2 := by
  obtain ⟨ids, henter, -⟩ := s.enterRoom_eq_queueEntrances id
  rw [henter, moveTo_eq]
  exact (h.loadRoom (s.leaves_between id) id).stays (stays_queueEntrances _ ids)

theorem CameBy.fulfil (h : CameBy r g₀ stops s) (request : Script.Request) :
    CameBy r g₀ (stops ++ request.room?.toList.map some) (s.fulfil request) := by
  cases request with
  | startConversation name =>
      rw [Script.Request.room?, Option.toList_none, List.map_nil, List.append_nil]
      exact h.stays (Aside.startConversation s name).stays
  | changeRoom room position =>
      obtain ⟨host, heq⟩ := s.fulfil_changeRoom room position
      rw [heq]
      exact (h.enterRoom room).stays (Aside.host _ host).stays

theorem CameBy.foldl_fulfil (h : CameBy r g₀ stops s) (requests : List Script.Request) :
    CameBy r g₀ (stops ++ (requests.filterMap Script.Request.room?).map some)
      (requests.foldl Session.fulfil s) := by
  induction requests generalizing s stops with
  | nil => simpa using h
  | cons request requests ih =>
      have hstops : ((request :: requests).filterMap Script.Request.room?).map some =
          request.room?.toList.map some ++ (requests.filterMap Script.Request.room?).map some := by
        cases request <;> rfl
      rw [hstops, ← List.append_assoc]
      exact ih (h.fulfil request)

theorem CameBy.perform (h : CameBy r g₀ stops s) (op : Operation) :
    CameBy r g₀ (stops ++ s.stops (.operation op)) (s.perform op) := by
  have hstays : ∀ {s'}, s.Stays s' → CameBy r g₀ (stops ++ []) s' := fun hs => by
    rw [List.append_nil]
    exact h.stays hs
  cases op with
  | loadInventory => exact hstays s.restocked_loadInventory.stays
  | enterRoom id => exact h.enterRoom id
  | dispatchVerb verb name => exact hstays (s.stays_dispatchVerb verb name)
  | tick =>
      have hplayed : s.Stays s.played := ⟨rfl, rfl, rfl⟩
      exact (h.stays hplayed).foldl_fulfil (s.playback.tick s.situation).requests
  | startConversation name => exact hstays (Aside.startConversation s name).stays
  | conversationLines => exact hstays (Aside.conversationLines s).stays
  | pick name => exact hstays (Aside.pick s name).stays
  | hotspotAt x y => exact hstays (Aside.hotspotAt s x y).stays
  | setVariable name value => exact hstays (Aside.setVars (s.vars.sameDeclarations_set name value)).stays
  | changeVariables text => exact hstays (Aside.setVars (s.vars.sameDeclarations_change text)).stays
  | world host => exact hstays (Aside.host s host).stays

theorem CameBy.resumeRoom (h : CameBy r g₀ stops s) (hs : s.Leaves s') (state : SaveState) :
    CameBy r g₀ (stops ++ [if s'.rooms.current = 0 then none else some s'.rooms.current])
      (s'.resumeRoom state).2 := by
  unfold Session.resumeRoom
  split
  · exact (h.leave hs rfl).stays (stays_resume s' state)
  · have hloaded := h.loadRoom hs s'.rooms.current
    split
    · next heq => rwa [heq] at hloaded
    · next heq =>
      rw [heq] at hloaded
      exact hloaded.stays (stays_resume _ state)

theorem CameBy.restore (h : CameBy r g₀ stops s) (state : SaveState) :
    CameBy r g₀ (stops ++ [s.destination? state]) (s.restore state).2 := by
  have hs := s.leaves_vacated state
  have hdefs : (s.vacated state).resources.objectDefs? (s.vacated state).config.inventory =
      s.resources.objectDefs? s.config.inventory := by
    rw [s.vacated_eq state]
  rw [restore_eq, destination?, ← hdefs]
  cases hds : (s.vacated state).resources.objectDefs? (s.vacated state).config.inventory with
  | none =>
      obtain ⟨e, he⟩ := loadInventory_of_none hds
      rw [he]
      exact h.leave hs.dropInventory rfl
  | some ds =>
      rw [loadInventory_of_some hds]
      exact h.resumeRoom (hs.dropInventory.installInventory ds) state

theorem CameBy.act (h : CameBy r g₀ stops s) (a : Act) : CameBy r g₀ (stops ++ s.stops a) (s.act a) := by
  cases a with
  | operation op => exact h.perform op
  | load bytes =>
      have hstops : s.stops (.load bytes) = (SaveState.ofBytes bytes).toOption.toList.map s.destination? := rfl
      have hact : s.act (.load bytes) = (s.load bytes).2 := rfl
      rw [hstops, hact, load]
      cases SaveState.ofBytes bytes with
      | error e =>
          rw [Except.toOption, Option.toList_none, List.map_nil, List.append_nil]
          exact h
      | ok state => exact h.restore state

theorem CameBy.acts (h : CameBy r g₀ stops s) (as : List Act) :
    CameBy r g₀ (stops ++ s.route as) (s.acts as) := by
  induction as generalizing s stops with
  | nil =>
      rw [route, List.append_nil]
      exact h
  | cons a as ih =>
      rw [route, ← List.append_assoc]
      exact ih (h.act a)

theorem CameBy.isSome_room_iff (h : CameBy r g₀ stops s) :
    s.room.isSome ↔ (r.arrived? stops).isSome := by
  rw [← Option.isSome_map (f := Room.walkMap), h.room, Option.isSome_map]

theorem CameBy.gridBelongs_iff (h : CameBy r g₀ stops s) : s.GridBelongs ↔ s.room.isSome ∨
    ∀ m ∈ r.walkMap? g₀ ((r.latest? stops).bind RoomDef.walkMap), ∀ c, ¬m.IsOpen c := by
  have hroom := h.room
  unfold GridBelongs
  rw [h.screen.walkMap?_eq, h.resources]
  cases harrived : r.arrived? stops with
  | some d =>
      rw [harrived, Option.map_some, Option.map_eq_some_iff] at hroom
      obtain ⟨room, hroom, hmap⟩ := hroom
      have hgrid := h.grid
      rw [Resources.latest?_of_arrived? harrived, Option.bind_some, ← hmap] at hgrid
      rw [hroom]
      exact iff_of_true hgrid (.inl rfl)
  | none =>
      rw [harrived, Option.map_none, Option.map_eq_none_iff] at hroom
      rw [hroom, h.grid.none_iff.symm]
      exact (or_iff_right (by simp)).symm

end CameBy

theorem not_gridBelongs_of_path {s : Session} {start goal : Point} (hroom : s.room = none)
    (hpath : (s.findPath start goal).isSome = true) : ¬s.GridBelongs := by
  intro h
  unfold GridBelongs at h
  rw [hroom] at h
  have hnone : s.findPath start goal = none := h.2 start goal
  rw [hnone] at hpath
  cases hpath

/-- After any run the grid belongs to the last room on the way that loads. So it belongs to the present room
just if there is one, or if the map that is left behind has no walkable cell. -/
theorem gridBelongs_acts_iff (config : SessionConfig) (resources : Resources) (host : Host) (as : List Act) :
    let s₀ := start config resources host
    let s := s₀.acts as
    let stops := s₀.route as
    let shown := resources.walkMap? s₀.grid ((resources.latest? stops).bind RoomDef.walkMap)
    s.grid.Belongs shown ∧ (s.room.isSome ↔ (resources.arrived? stops).isSome) ∧
      (s.GridBelongs ↔ s.room.isSome ∨ ∀ m ∈ shown, ∀ c, ¬m.IsOpen c) := by
  intro s₀ s stops shown
  have h : CameBy resources s₀.grid stops s := (cameBy_start config resources host).acts as
  exact ⟨h.grid, h.isSome_room_iff, h.gridBelongs_iff⟩

/-- A screen of three cells by two, and a room that can be walked on everywhere. -/
def smallScreen : SessionConfig :=
  { SessionConfig.standard with screenWidth := 30, screenHeight := 20 }

def meadow : Resources :=
  (Resources.inMemory.insert "0100.rom" "WalkMap 0100.wlk\n".toUTF8.toList).insert "0100.wlk"
    (WalkMap.filled 3 2 1).toBytes

/-- The meadow is left for a room that is missing, and for a saved game without a room. There is no room any
more, but ways are still found on the meadow. -/
theorem meadow_not_gridBelongs :
    let s₀ := start smallScreen meadow (.silent false)
    let lost := s₀.acts [.operation (.enterRoom 100), .operation (.enterRoom 4242)]
    let loaded := s₀.acts [.operation (.enterRoom 100), .load (s₀.save.toOption.getD [])]
    (lost.room = none ∧ (lost.findPath ⟨5, 5⟩ ⟨25, 15⟩).isSome = true ∧ ¬lost.GridBelongs) ∧
      loaded.room = none ∧ (loaded.findPath ⟨5, 5⟩ ⟨25, 15⟩).isSome = true ∧ ¬loaded.GridBelongs := by
  intro s₀ lost loaded
  have hlost : lost.room = none ∧ (lost.findPath ⟨5, 5⟩ ⟨25, 15⟩).isSome = true := by decide +kernel
  have hloaded : loaded.room = none ∧ (loaded.findPath ⟨5, 5⟩ ⟨25, 15⟩).isSome = true := by decide +kernel
  exact ⟨⟨hlost.1, hlost.2, not_gridBelongs_of_path hlost.1 hlost.2⟩,
    hloaded.1, hloaded.2, not_gridBelongs_of_path hloaded.1 hloaded.2⟩

end Session
end Adventure
