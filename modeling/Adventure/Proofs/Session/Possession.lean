import Adventure.Proofs.Session.Rest
/-! Every stored chunk has one owner, and every handle in use finds its chunk. Chunks come and go with rooms
and with the inventory, also where a saved game is loaded and where loading fails halfway. -/
namespace Adventure.Session

open Script (ChunkId Library Playback Queued)

variable {P : UInt16 → Prop} {s s' : Session} {state : SaveState} {id : UInt16}

/-! ### Owners and the register -/

/-- Every stored chunk belongs to one owner, and what the register calls live is stored. -/
structure Possesses (s : Session) : Prop where
  owned : s.library.Stores (s.inventory.chunkIds ++ s.roomIds)
  resolves : s.library.Resolves

theorem possesses_start (config : SessionConfig) (resources : Resources) (host : Host) :
    (start config resources host).Possesses where
  owned := owned_start config resources host
  resolves _ _ h := nomatch h

theorem Possesses.congr (h : s.Possesses) (hlibrary : s'.library = s.library)
    (hinventory : s'.inventory = s.inventory) (hroom : s'.roomIds = s.roomIds) : s'.Possesses where
  owned := Owned.congr h.owned hlibrary hinventory hroom
  resolves := hlibrary ▸ h.resolves

theorem Possesses.restocked (h : s.Possesses) (hs : s.Restocked s') : s'.Possesses where
  owned := Owned.restocked h.owned hs
  resolves := by
    rw [(Prod.mk.inj hs.chunks).2]
    exact (h.resolves.releaseAll _).adoptAll (Library.releaseAll_store_sound h.owned.sound _) _

theorem Possesses.arrives (h : s.Possesses) (hs : s.Arrives id s') : s'.Possesses where
  owned := Owned.arrives h.owned hs
  resolves := by
    rw [(Prod.mk.inj hs.chunks).2]
    exact (h.resolves.releaseAll _).adoptAll (Library.releaseAll_store_sound h.owned.sound _) _

/-- The lines of a saved game wait; none of them is a handle. -/
theorem Possesses.vacated (h : s.Possesses) (state : SaveState) : (s.vacated state).Possesses where
  owned := Owned.vacated h.owned state
  resolves sig j hlive := by
    rw [s.vacated_eq state] at hlive
    exact absurd hlive (Library.restoreLines_ne_live _ _ sig j)

theorem Possesses.change (h : s.Possesses) (hc : s.Change P s') : s'.Possesses := by
  cases hc with
  | loadInventory => exact h.restocked s.restocked_loadInventory
  | moveTo _ => exact h.arrives (s.moved_moveTo _).arrives
  | interpret candidates previous => exact h.congr (s.playback.interpret_library candidates previous) rfl rfl
  | play => exact ⟨Owned.played h.owned, h.resolves.plays (s.playback.plays_tick s.situation)⟩
  | aside ha => exact h.congr ha.library ha.inventory ha.roomIds_eq

theorem Possesses.loadStep (h : s.Possesses) (hs : s.LoadStep state s') : s'.Possesses := by
  cases hs with
  | vacate => exact h.vacated state
  | loadInventory _ => exact h.restocked s.restocked_loadInventory
  | loadRoom hroom hqueue => exact h.arrives (arrives_loadRoom hroom hqueue)
  | requeue => exact h.congr rfl rfl rfl
  | converse conversation => exact h.congr rfl rfl rfl

theorem Possesses.loadSteps (h : s.Possesses) (hs : s.LoadSteps state s') : s'.Possesses := by
  induction hs with
  | refl => exact h
  | tail _ hs ih => exact ih.loadStep hs

/-! ### The queue -/

/-- Every queued script finds its chunk. -/
def Supplied (s : Session) : Prop :=
  ∀ q ∈ s.interpreter.queue, ∃ c, s.library.store.get? q.chunk = some c

theorem supplied_of_queue_nil (h : s.interpreter.queue = []) : s.Supplied := by
  intro q hq
  rw [h] at hq
  cases hq

theorem Supplied.aside (h : s.Supplied) (ha : s.Aside s') : s'.Supplied := by
  rw [Supplied, ha.interpreter, ha.library]
  exact h

theorem Supplied.dispatchVerb (h : s.Supplied) (verb : Verb) (name : String) :
    (s.dispatchVerb verb name).2.Supplied := by
  unfold Session.dispatchVerb
  split
  · exact h
  · next object _ =>
    intro q hq
    rw [interpreter, Playback.interpret_queue, List.mem_append] at hq
    rw [library, Playback.interpret_library]
    rcases hq with hq | hq
    · exact h q hq
    · obtain ⟨j, hj, rfl⟩ := List.mem_map.1 hq
      obtain ⟨-, c, hc, -⟩ := Playback.candidate_of_interpret (Option.mem_toList.1 hj)
      exact ⟨c, hc⟩

/-- Leaving a room drops the queue, so all that is queued afterwards has come with the new one. -/
theorem supplied_enterRoom (s : Session) (id : UInt16) : (s.enterRoom id).2.Supplied := by
  obtain ⟨ids, henter, -⟩ := s.enterRoom_eq_queueEntrances id
  rw [henter]
  intro q hq
  rw [queueEntrances_library]
  rcases queueEntrances_queue _ ids hq with hq | ⟨-, -, c, hc, -⟩
  · rw [(s.moved_moveTo id).arrives.queue] at hq
    cases hq
  · exact ⟨c, hc⟩

theorem Supplied.fulfil (h : s.Supplied) (r : Script.Request) : (s.fulfil r).Supplied := by
  cases r with
  | startConversation name => exact h.aside (.startConversation s name)
  | changeRoom room position =>
      obtain ⟨host, heq⟩ := s.fulfil_changeRoom room position
      rw [heq]
      exact (s.supplied_enterRoom room).aside (.host _ host)

theorem Supplied.played (h : s.Supplied) : s.played.Supplied := by
  intro q hq
  have hmem := (s.playback.tick_queue_sublist s.situation).subset (List.mem_map_of_mem hq)
  obtain ⟨q₀, hq₀, heq⟩ := List.mem_map.1 hmem
  obtain ⟨c, hc⟩ := h q₀ hq₀
  obtain ⟨c', hc', -⟩ := (s.playback.plays_tick s.situation).stored (heq ▸ hc)
  exact ⟨c', hc'⟩

theorem Supplied.tick (h : s.Supplied) : s.tick.2.Supplied := by
  have hplayed := h.played
  change ((s.playback.tick s.situation).requests.foldl Session.fulfil s.played).Supplied
  generalize s.played = t at hplayed ⊢
  induction (s.playback.tick s.situation).requests generalizing t with
  | nil => exact hplayed
  | cons r rs ih => exact ih _ (hplayed.fulfil r)

/-- Loading the inventory on its own destroys chunks that may be queued, so nothing is to be queued then. -/
theorem Supplied.perform (h : s.Supplied) {op : Operation}
    (hcalm : op = .loadInventory → s.interpreter.queue = []) : (s.perform op).Supplied := by
  cases op with
  | loadInventory =>
      refine supplied_of_queue_nil ?_
      rw [Session.perform, s.restocked_loadInventory.interpreter]
      exact hcalm rfl
  | enterRoom id => exact s.supplied_enterRoom id
  | dispatchVerb verb name => exact h.dispatchVerb verb name
  | tick => exact h.tick
  | startConversation name => exact h.aside (.startConversation s name)
  | conversationLines => exact h.aside (.conversationLines s)
  | pick name => exact h.aside (.pick s name)
  | hotspotAt x y => exact h.aside (.hotspotAt s x y)
  | setVariable name value => exact h.aside (.setVars (s.vars.sameDeclarations_set name value))
  | changeVariables text => exact h.aside (.setVars (s.vars.sameDeclarations_change text))
  | world host => exact h.aside (.host s host)

/-- A saved script is queued again only under a handle of the register. -/
theorem Supplied.loadStep (h : s.Supplied) (hp : s.Possesses) (hs : s.LoadStep state s') : s'.Supplied := by
  cases hs with
  | vacate =>
      refine supplied_of_queue_nil ?_
      rw [s.vacated_eq state]
      rfl
  | loadInventory hqueue =>
      refine supplied_of_queue_nil ?_
      rw [s.restocked_loadInventory.interpreter, hqueue]
  | loadRoom hroom hqueue => exact supplied_of_queue_nil (arrives_loadRoom hroom hqueue).queue
  | requeue =>
      intro q hq
      obtain ⟨saved, -, hsaved⟩ := List.mem_filterMap.1 hq
      obtain ⟨j, hlive, rfl⟩ := Option.map_eq_some_iff.1 hsaved
      obtain ⟨c, hc, -⟩ := hp.resolves _ _ (Library.live?_eq_some_iff.1 hlive)
      exact ⟨c, hc⟩
  | converse conversation => exact h

theorem Supplied.loadSteps (h : s.Supplied) (hp : s.Possesses) (hs : s.LoadSteps state s') : s'.Supplied := by
  induction hs with
  | refl => exact h
  | tail hbefore hs ih => exact ih.loadStep (hp.loadSteps hbefore) hs

theorem Supplied.act (h : s.Supplied) (hp : s.Possesses) {a : Act}
    (hcalm : a = .operation .loadInventory → s.interpreter.queue = []) : (s.act a).Supplied := by
  cases a with
  | operation op => exact h.perform fun hop => hcalm (congrArg Act.operation hop)
  | load bytes =>
      change (s.load bytes).2.Supplied
      unfold load
      split
      · exact h
      · next state _ => exact h.loadSteps hp (s.loadSteps_restore state)

/-! ### Runs -/

/-- On its own the inventory is loaded only while no script is queued. -/
def Calm : Session → List Act → Prop
  | _, [] => True
  | s, a :: as => (a = .operation .loadInventory → s.interpreter.queue = []) ∧ (s.act a).Calm as

theorem Possesses.acts (h : s.Possesses) (as : List Act) : (s.acts as).Possesses :=
  acts_induction (fun hc hs => hs.change hc) (fun hs h => h.loadStep hs) h as

theorem Supplied.acts (h : s.Supplied) (hp : s.Possesses) {as : List Act} (hcalm : s.Calm as) :
    (s.acts as).Supplied := by
  induction as generalizing s with
  | nil => exact h
  | cons a as ih => exact ih (h.act hp hcalm.1) (hp.acts [a]) hcalm.2

/-- After any operations and loads, failed ones too, the stored chunks are just those of the inventory, of the
room's objects and of its entrance, each held once, and what the register calls live is stored under its
signature. Every queued script finds its chunk if the inventory was not loaded under a running script. -/
theorem possesses_acts (config : SessionConfig) (resources : Resources) (host : Host) (as : List Act) :
    let s₀ := start config resources host
    (s₀.acts as).Possesses ∧ (s₀.Calm as → (s₀.acts as).Supplied) := by
  intro s₀
  have hp : s₀.Possesses := possesses_start config resources host
  exact ⟨hp.acts as, (supplied_of_queue_nil rfl).acts hp⟩

/-- A lamp to carry with a script that waits, and a room with a script of its own. -/
def pantry : Resources :=
  (Resources.inMemory.insert "inv.txt"
    "Objects 1\nObject Lamp\nUse\nCond\nDelay 20\nSet A\n".toUTF8.toList).insert
    "0100.rom" "Enter\nCond\nDelay 50\nSet B\n".toUTF8.toList

def pantryActs : List Act :=
  [.operation .loadInventory, .operation (.enterRoom 4242), .operation (.enterRoom 100),
    .operation (.dispatchVerb .use "Lamp"), .operation .tick]

theorem possesses_acts_pantry :
    let s₀ := start .standard pantry (.silent false)
    let as := pantryActs ++ [.load ((s₀.acts pantryActs).save.toOption.getD [])]
    s₀.Calm as ∧ (s₀.acts as).inventory.chunkIds.length = 1 ∧ (s₀.acts as).roomIds.length = 1 ∧
      (s₀.acts as).interpreter.queue.length = 2 ∧ (s₀.acts as).Possesses ∧ (s₀.acts as).Supplied := by
  intro s₀ as
  have hcalm : s₀.Calm as := ⟨fun _ => rfl, nofun, nofun, nofun, nofun, nofun, trivial⟩
  have hchunks : (s₀.acts as).inventory.chunkIds.length = 1 ∧ (s₀.acts as).roomIds.length = 1 ∧
      (s₀.acts as).interpreter.queue.length = 2 := by decide +kernel
  obtain ⟨hp, h⟩ := possesses_acts .standard pantry (.silent false) as
  exact ⟨hcalm, hchunks.1, hchunks.2.1, hchunks.2.2, hp, h hcalm⟩

end Adventure.Session
