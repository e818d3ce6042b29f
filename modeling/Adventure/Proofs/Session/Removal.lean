import Adventure.Proofs.Script.Calls
import Adventure.Proofs.Session.Load
/-! Scripts that are removed for good. A signature that is marked as removed keeps the mark, and none of its
chunks is queued or played again: not when rooms are left and entered, and not when a game is loaded that was
saved after the removal, in the same session or in a new one. -/
namespace Adventure

open Script (Library Playback Queued)

/-! ### Sessions after any acts -/

namespace Session
variable {P : UInt16 → Prop} {s s' : Session} {state : SaveState} {sig : String}

/-- The owners hold chunks of their own texts, and no retired chunk is queued. Unlike an orderly session, this
one may have lines that wait. -/
structure Lawful (s : Session) : Prop where
  stocked : s.Stocked
  owned : s.Owned
  ready : s.playback.Ready

theorem lawful_start (config : SessionConfig) (resources : Resources) (host : Host)
    (h : ∀ id, config.inventory ≠ Room.resourceName id) : (start config resources host).Lawful where
  stocked := stocked_start config resources host h
  owned := owned_start config resources host
  ready := ready_of_queue_nil rfl

theorem Lawful.change (h : s.Lawful) (hc : s.Change P s') : s'.Lawful where
  stocked := h.stocked.change h.owned hc
  owned := h.owned.change hc
  ready := ready_change h.ready h.owned hc

/-- A saved script is queued again under a handle of the register, which leads to no retired chunk. -/
theorem Lawful.requeued (h : s.Lawful) (state : SaveState) : (s.requeued state).Lawful where
  stocked := h.stocked.congr rfl rfl rfl rfl rfl rfl
  owned := h.owned.congr rfl rfl rfl
  ready q hq c hc := by
    obtain ⟨saved, -, hsaved⟩ := List.mem_filterMap.1 hq
    obtain ⟨j, hlive, rfl⟩ := Option.map_eq_some_iff.1 hsaved
    obtain ⟨d, hd, -, hr⟩ := h.stocked.sound.stored_of_live (Library.live?_eq_some_iff.1 hlive)
    cases hd.symm.trans hc
    exact hr

theorem Lawful.loadStep (h : s.Lawful) (hs : s.LoadStep state s') : s'.Lawful := by
  cases hs with
  | vacate =>
      refine ⟨h.stocked.vacated h.owned state, h.owned.vacated state, ready_of_queue_nil ?_⟩
      rw [s.vacated_eq state]
      rfl
  | loadInventory _ =>
      have hs := s.restocked_loadInventory
      exact ⟨h.stocked.restocked h.owned hs, h.owned.restocked hs, ready_restocked h.ready h.owned hs⟩
  | loadRoom hroom hqueue =>
      have hs := arrives_loadRoom hroom hqueue
      exact ⟨h.stocked.arrives h.owned hs, h.owned.arrives hs, ready_of_queue_nil hs.queue⟩
  | requeue => exact h.requeued state
  | converse conversation =>
      exact ⟨h.stocked.congr rfl rfl rfl rfl rfl rfl, h.owned.congr rfl rfl rfl, h.ready⟩

theorem Lawful.acts (h : s.Lawful) (as : List Act) : (s.acts as).Lawful :=
  acts_induction (fun hc hs => hs.change hc) (fun hs h => h.loadStep hs) h as

/-! ### The mark of removal -/

/-- The register marks the signature as removed. -/
def Removed (s : Session) (sig : String) : Prop :=
  s.library.register.get? sig = some .removed

theorem Removed.library (h : s.Removed sig) (hs : s'.library = s.library) : s'.Removed sig := by
  rw [Removed, hs]
  exact h

/-- A mark stays while the chunks of an owner are exchanged. -/
theorem Removed.exchange (h : s.Removed sig) {gone : List Script.ChunkId} {cs : List Script.Chunk}
    (hs : s'.library = (Library.adoptAll cs (s.library.releaseAll gone)).2) : s'.Removed sig := by
  rw [Removed, hs]
  exact (Library.adoptAll_removed_iff cs _ _).2 (Library.releaseAll_register_of_removed h gone)

theorem Removed.change (h : s.Removed sig) (hc : s.Change P s') : s'.Removed sig := by
  cases hc with
  | loadInventory => exact h.exchange (Prod.mk.inj s.restocked_loadInventory.chunks).2
  | moveTo _ => exact h.exchange (Prod.mk.inj (s.moved_moveTo _).chunks).2
  | interpret candidates previous => exact h.library (s.playback.interpret_library candidates previous)
  | play => exact (s.playback.plays_tick s.situation).removed h
  | aside ha => exact h.library ha.library

/-- The lines of a saved game mark the signature as removed. -/
def Marks (state : SaveState) (sig : String) : Prop :=
  ∀ l : Library, (l.restoreLines state.scriptLines).register.get? sig = some .removed

theorem Removed.marks (h : s.Removed sig) : Marks s.saveState sig := by
  intro l
  have hslot := s.library.restoreLines_register l sig
  rw [Library.lineOf?_of_removed h] at hslot
  exact hslot

theorem removed_vacated (s : Session) (hm : Marks state sig) : (s.vacated state).Removed sig := by
  rw [s.vacated_eq state]
  exact hm _

theorem Removed.loadStep (h : s.Removed sig) (hm : Marks state sig) (hs : s.LoadStep state s') :
    s'.Removed sig := by
  cases hs with
  | vacate => exact s.removed_vacated hm
  | loadInventory _ => exact h.exchange (Prod.mk.inj s.restocked_loadInventory.chunks).2
  | loadRoom hroom hqueue => exact h.exchange (Prod.mk.inj (arrives_loadRoom hroom hqueue).chunks).2
  | requeue => exact h.library rfl
  | converse conversation => exact h.library rfl

/-! ### Scripts that are queued and played -/

/-- The signatures of the queued scripts. -/
def queuedSignatures (s : Session) : List String :=
  s.interpreter.queue.filterMap fun q => (s.library.store.get? q.chunk).map Script.Chunk.signature

/-- The signatures of the scripts that perform an action in a tick, once for each action. -/
def playedSignatures (s : Session) : List String :=
  (Script.calls s.situation s.interpreter.queue s.library.store s.playback.openScene).filterMap fun call =>
    (s.library.store.get? call.chunk).map Script.Chunk.signature

theorem queued_of_played (h : sig ∈ s.playedSignatures) : sig ∈ s.queuedSignatures := by
  obtain ⟨call, hcall, hsig⟩ := List.mem_filterMap.1 h
  obtain ⟨q, hq, hchunk⟩ := List.mem_map.1 (Script.chunk_of_mem_calls hcall)
  exact List.mem_filterMap.2 ⟨q, hq, hchunk ▸ hsig⟩

/-- A stored chunk whose signature is marked is retired, and no retired chunk is queued. -/
theorem Lawful.not_queued (h : s.Lawful) (hr : s.Removed sig) : sig ∉ s.queuedSignatures := by
  intro hmem
  obtain ⟨q, hq, hsig⟩ := List.mem_filterMap.1 hmem
  obtain ⟨c, hc, rfl⟩ := Option.map_eq_some_iff.1 hsig
  have hslot := h.stocked.sound.live_of_stored hc (h.ready q hq c hc)
  rw [show s.library.register.get? c.signature = some .removed from hr] at hslot
  cases hslot

end Session

/-! ### Games -/

/-- A session with the saved games that have been made of it. -/
structure Game where
  session : Session
  records : List MessagePack.Bytes

namespace Game

inductive Move where
  | operation (op : Session.Operation)
  | save
  /-- Loads one of the saved games. -/
  | load (n : Nat)
  /-- Loads one of the saved games into a new session. -/
  | reopen (host : Host) (n : Nat)

/-- Loads a saved game, if there are so many. -/
def reload (g : Game) (n : Nat) (s : Session) : Game :=
  match g.records[n]? with
  | some bytes => { g with session := (s.load bytes).2 }
  | none => g

def move (g : Game) : Move → Game
  | .operation op => { g with session := g.session.perform op }
  | .save => { g with records := g.records ++ g.session.save.toOption.toList }
  | .load n => g.reload n g.session
  | .reopen host n => g.reload n (.start g.session.config g.session.resources host)

def play (g : Game) (moves : List Move) : Game :=
  moves.foldl move g

/-- The signatures of the scripts that perform an action in a move. -/
def played (g : Game) : Move → List String
  | .operation .tick => g.session.playedSignatures
  | _ => []

/-- The same over a whole game. -/
def log (g : Game) : List Move → List String
  | [] => []
  | m :: moves => g.played m ++ (g.move m).log moves

/-- The signature is removed, and every saved game says so. -/
structure Settled (g : Game) (sig : String) : Prop where
  lawful : g.session.Lawful
  removed : g.session.Removed sig
  records : ∀ bytes ∈ g.records, ∃ state, SaveState.ofBytes bytes = .ok state ∧ Session.Marks state sig

variable {g : Game} {sig : String}

theorem Settled.save (h : g.Settled sig) : (g.move .save).Settled sig := by
  refine ⟨h.lawful, h.removed, fun bytes hbytes => ?_⟩
  rcases List.mem_append.1 hbytes with hbytes | hbytes
  · exact h.records bytes hbytes
  · have hsave : g.session.save = .ok bytes := by
      cases hs : g.session.save with
      | error e => rw [hs] at hbytes; cases hbytes
      | ok bytes' => rw [hs] at hbytes; rw [List.mem_singleton.1 hbytes]
    exact ⟨g.session.saveState, Session.ofBytes_of_save hsave, h.removed.marks⟩

/-- Whatever session a saved game is loaded into, the mark comes back with it. -/
theorem Settled.reload (h : g.Settled sig) (n : Nat) {s : Session} (hs : s.Lawful) :
    (g.reload n s).Settled sig := by
  unfold Game.reload
  split
  · next bytes hn =>
    obtain ⟨state, hstate, hm⟩ := h.records bytes (List.mem_of_getElem? hn)
    have hload : s.load bytes = s.restore state := by rw [Session.load, hstate]
    rw [hload]
    refine ⟨?_, ?_, h.records⟩
    · exact Session.restore_induction (fun hs hl => hl.loadStep hs) (hs.loadStep (.vacate s))
    · exact Session.restore_induction (Q := (·.Removed sig)) (fun hs hr => hr.loadStep hm hs)
        (s.removed_vacated hm)
  · exact h

theorem Settled.move (h : g.Settled sig) (m : Move) : (g.move m).Settled sig := by
  cases m with
  | operation op =>
      refine ⟨?_, ?_, h.records⟩
      · exact Session.perform_induction (fun hc hl => hl.change hc) h.lawful op
      · exact Session.perform_induction (Q := (·.Removed sig)) (fun hc hr => hr.change hc) h.removed op
  | save => exact h.save
  | load n => exact h.reload n h.lawful
  | reopen host n => exact h.reload n (Session.lawful_start _ _ host h.lawful.stocked.apart)

theorem Settled.not_played (h : g.Settled sig) (m : Move) : sig ∉ g.played m := by
  intro hmem
  unfold played at hmem
  split at hmem
  · exact h.lawful.not_queued h.removed (Session.queued_of_played hmem)
  · cases hmem

theorem Settled.play (h : g.Settled sig) (moves : List Move) : (g.play moves).Settled sig := by
  induction moves generalizing g with
  | nil => exact h
  | cons m moves ih => exact ih (h.move m)

theorem Settled.not_logged (h : g.Settled sig) (moves : List Move) : sig ∉ g.log moves := by
  induction moves generalizing g with
  | nil => exact List.not_mem_nil
  | cons m moves ih =>
      rw [log, List.mem_append, not_or]
      exact ⟨h.not_played m, ih (h.move m)⟩

/-- Once the register marks a signature as removed, the mark stays, and no script of the signature is queued
or performs an action any more. Before the removal any games may have been loaded, and after it those that
were saved since. -/
theorem removed_play (config : SessionConfig) (resources : Resources) (host : Host)
    (before : List Session.Act) (moves : List Move) {sig : String}
    (hname : ∀ id, config.inventory ≠ Room.resourceName id)
    (hremoved : ((Session.start config resources host).acts before).Removed sig) :
    let g : Game := ⟨(Session.start config resources host).acts before, []⟩
    (g.play moves).session.Removed sig ∧ sig ∉ (g.play moves).session.queuedSignatures ∧ sig ∉ g.log moves := by
  intro g
  have hlawful : g.session.Lawful := (Session.lawful_start config resources host hname).acts before
  have h : g.Settled sig := ⟨hlawful, hremoved, fun _ hbytes => nomatch hbytes⟩
  exact ⟨(h.play moves).removed, (h.play moves).lawful.not_queued (h.play moves).removed, h.not_logged moves⟩

/-- A room with a script that runs once when it is entered, and one that runs every time. -/
def greeting : Resources :=
  Resources.inMemory.insert "0100.rom" "Enter\nCond\nOnce\nCursor once\nCond\nCursor always\n".toUTF8.toList

def greetingActs : List Session.Act :=
  [.operation .loadInventory, .operation (.enterRoom 100), .operation .tick]

def greetingMoves : List Move :=
  [.save, .operation (.enterRoom 4242), .operation (.enterRoom 100), .operation .tick, .load 0,
    .operation (.enterRoom 100), .reopen (.silent false) 0, .operation (.enterRoom 100), .operation .tick]

theorem removed_play_greeting :
    let s := (Session.start .standard greeting (.silent false)).acts greetingActs
    let g : Game := ⟨s, []⟩
    (∀ id, SessionConfig.standard.inventory ≠ Room.resourceName id) ∧ s.Removed "0100.rom:2" ∧
      (g.play greetingMoves).session.Removed "0100.rom:2" ∧
      "0100.rom:2" ∉ (g.play greetingMoves).session.queuedSignatures ∧
      "0100.rom:2" ∉ g.log greetingMoves ∧ g.log greetingMoves = ["0100.rom:5", "0100.rom:5"] := by
  intro s g
  have hremoved : s.Removed "0100.rom:2" := by
    unfold Session.Removed
    decide +kernel
  obtain ⟨hplayed, hqueued, hlog⟩ := removed_play .standard greeting (.silent false) greetingActs greetingMoves
    Session.standard_inventory_ne hremoved
  exact ⟨Session.standard_inventory_ne, hremoved, hplayed, hqueued, hlog, by decide +kernel⟩

end Game
end Adventure
