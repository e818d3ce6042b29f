import Mathlib.Logic.Relation
import Adventure.Proofs.Conversation
import Adventure.Proofs.Script.Scene
import Adventure.Proofs.Session.Loading
/-! The operations of a session and the single changes that they are made of. What every change preserves
is preserved by a whole run. -/
namespace Adventure

open Script (ChunkId)

/-! ### Answers that are kept for objects -/

/-- The object without the answers that are kept for it. -/
def Object.forget (o : Object) : Object :=
  { o with answers := .const none }

theorem Object.forget_isActive (o : Object) (verb : Verb) (store : Script.Store) (vars : Variables) :
    (o.isActive verb store vars).2.forget = o.forget := by
  unfold isActive
  dsimp only
  split
  · split <;> rfl
  · rfl

theorem Object.forget_activeVerbs (store : Script.Store) (vars : Variables) (verbs : List Verb)
    (o : Object) : (activeVerbs store vars verbs o).2.forget = o.forget := by
  induction verbs generalizing o with
  | nil => rfl
  | cons verb verbs ih =>
      rw [activeVerbs]
      exact (ih _).trans (o.forget_isActive verb store vars)

theorem Container.forget_updateFirst {α : Type} {p : Object → Bool} {f : Object → α × Object}
    (hf : ∀ o, (f o).2.forget = o.forget) {os os' : List Object} {result : α}
    (h : updateFirst p f os = some (result, os')) : os'.map Object.forget = os.map Object.forget := by
  induction os generalizing os' with
  | nil => cases h
  | cons o os ih =>
      unfold updateFirst at h
      split at h
      · cases h
        rw [List.map_cons, List.map_cons, hf]
      · obtain ⟨⟨_, rest⟩, hrest, heq⟩ := Option.map_eq_some_iff.1 h
        cases heq
        rw [List.map_cons, List.map_cons, ih hrest]

def Room.forget (room : Room) : Room :=
  { room with objects := ⟨room.objects.objects.map Object.forget⟩ }

theorem Room.chunkIds_forget (room : Room) : room.forget.chunkIds = room.chunkIds := by
  rw [chunkIds, chunkIds, Container.chunkIds, Container.chunkIds, forget, List.flatMap_map]
  rfl

namespace Session

theorem foldl_tell (s : Session) (lines : List DialogueLine) :
    lines.foldl (fun s line => s.tell (.talk line.speaker line.text)) s =
      s.setHost { s.host with
        events := s.host.events ++ lines.map fun line => .talk line.speaker line.text } := by
  induction lines generalizing s with
  | nil => rw [List.map_nil, List.append_nil]; rfl
  | cons line lines ih =>
      rw [List.foldl_cons, ih]
      simp [tell, setHost, host, Host.record]

/-! ### Changes -/

/-- Neither scripts nor rooms change, but there may be writes to variables, events in the world, answers
that are kept, and talk. -/
structure Aside (s s' : Session) : Prop where
  config : s'.config = s.config
  resources : s'.resources = s.resources
  library : s'.library = s.library
  interpreter : s'.interpreter = s.interpreter
  rooms : s'.rooms = s.rooms
  grid : s'.grid = s.grid
  inventory : s'.inventory = s.inventory
  room : s'.room.map Room.forget = s.room.map Room.forget
  vars : s'.vars.SameDeclarations s.vars
  conversation : ∀ c' ∈ s'.conversation, (∃ c ∈ s.conversation, c.Continues c') ∨
    s.resources.conversation? c'.name = some c'

/-- The single changes that operations are made of, where only rooms with `P` are moved to. -/
inductive Change (P : UInt16 → Prop) : Session → Session → Prop where
  | loadInventory (s : Session) : Change P s s.loadInventory.2
  | moveTo (s : Session) {id : UInt16} (h : P id) : Change P s (s.moveTo id).2
  | interpret (s : Session) (candidates : List ChunkId) (previous : UInt16) :
      Change P s { s with playback := (s.playback.interpret candidates previous).2 }
  | play (s : Session) : Change P s { s with playback := (s.playback.tick s.situation).playback }
  | aside {s s' : Session} (h : Aside s s') : Change P s s'

/-- What becomes of a session in any number of changes. -/
abbrev Changes (P : UInt16 → Prop) : Session → Session → Prop :=
  Relation.ReflTransGen (Change P)

namespace Aside
variable {s s' s'' : Session}

theorem refl (s : Session) : s.Aside s :=
  ⟨rfl, rfl, rfl, rfl, rfl, rfl, rfl, rfl, .refl _, fun c hc => .inl ⟨c, hc, .refl c⟩⟩

theorem roomIds_eq (h : s.Aside s') : s'.roomIds = s.roomIds := by
  have hids := congrArg (Option.map Room.chunkIds) h.room
  simp only [Option.map_map, Function.comp_def, Room.chunkIds_forget] at hids
  rw [roomIds, roomIds, hids]

theorem host (s : Session) (host : Host) : s.Aside (s.setHost host) :=
  ⟨rfl, rfl, rfl, rfl, rfl, rfl, rfl, rfl, .refl _, fun c hc => .inl ⟨c, hc, .refl c⟩⟩

theorem setVars {vars : Variables} (h : vars.SameDeclarations s.vars) : s.Aside (s.setVars vars) :=
  ⟨rfl, rfl, rfl, rfl, rfl, rfl, rfl, rfl, h, fun c hc => .inl ⟨c, hc, .refl c⟩⟩

theorem startConversation (s : Session) (name : String) : s.Aside (s.startConversation name).2 := by
  unfold Session.startConversation
  dsimp only
  split
  · exact .refl s
  · split
    · exact .refl s
    · next reader hreader =>
      split
      · exact .refl s
      · next c hparse =>
        refine ⟨rfl, rfl, rfl, rfl, rfl, rfl, rfl, rfl, .refl _, fun c' hc' => .inr ?_⟩
        cases hc'
        rw [(Conversation.parse_ok hparse).1]
        unfold readText Resources.fetch at hreader
        cases hbytes : s.resources.get? (Conversation.resourceName name) with
        | none => rw [hbytes] at hreader; cases hreader
        | some bytes =>
            rw [hbytes] at hreader
            cases hreader
            simp [Resources.conversation?, hbytes, hparse, Except.toOption]

theorem keepConversation {c c' : Conversation} (hc : s.conversation = some c) (h : c.Continues c') :
    s.Aside (s.keepConversation c') := by
  refine ⟨rfl, rfl, rfl, rfl, rfl, rfl, rfl, rfl, .refl _, fun d hd => .inl ⟨c, hc, ?_⟩⟩
  unfold Session.keepConversation at hd
  dsimp only at hd
  split at hd <;> cases hd
  exact h

theorem conversationLines (s : Session) : s.Aside s.conversationLines.2 := by
  unfold Session.conversationLines
  split
  · exact .refl s
  · next c hc => exact keepConversation hc (c.continues_currentLines s.vars)

theorem pick (s : Session) (name : String) : s.Aside (s.pick name).2 := by
  unfold Session.pick
  split
  · exact .refl s
  · next c hc =>
    dsimp only
    rw [foldl_tell]
    refine ⟨rfl, rfl, rfl, rfl, rfl, rfl, rfl, rfl, Conversation.sameDeclarations_pick _ name _, ?_⟩
    have hplayed := (c.continues_currentLines s.vars).trans (Conversation.continues_pick _ name s.vars)
    exact (keepConversation hc hplayed).conversation

theorem hotspotAt (s : Session) (x y : Int32) : s.Aside (s.hotspotAt? x y).2 := by
  unfold Session.hotspotAt?
  split
  · exact .refl s
  · next room hroom =>
    dsimp only
    split
    · exact .refl s
    · next hotspot objects hupdate =>
      have hforget := Container.forget_updateFirst (fun o => ?_) hupdate
      · refine ⟨rfl, rfl, rfl, rfl, rfl, rfl, rfl, ?_, .refl _, fun c hc => .inl ⟨c, hc, .refl c⟩⟩
        rw [hroom, Option.map_some, Option.map_some, Room.forget, Room.forget, hforget]
      · exact o.forget_activeVerbs s.library.store s.vars Verb.all

end Aside

/-! ### Operations -/

/-- What a player or the world may do. -/
inductive Operation where
  | loadInventory
  | enterRoom (id : UInt16)
  | dispatchVerb (verb : Verb) (name : String)
  | tick
  | startConversation (name : String)
  | conversationLines
  | pick (name : String)
  | hotspotAt (x y : Int32)
  | setVariable (name : String) (value : UInt8)
  | changeVariables (text : String)
  /-- The clock moves on, media end, or events are taken. -/
  | world (host : Host)
  deriving DecidableEq

def perform (s : Session) : Operation → Session
  | .loadInventory => s.loadInventory.2
  | .enterRoom id => (s.enterRoom id).2
  | .dispatchVerb verb name => (s.dispatchVerb verb name).2
  | .tick => s.tick.2
  | .startConversation name => (s.startConversation name).2
  | .conversationLines => s.conversationLines.2
  | .pick name => (s.pick name).2
  | .hotspotAt x y => (s.hotspotAt? x y).2
  | .setVariable name value => s.setVars (s.vars.set name value)
  | .changeVariables text => s.setVars (s.vars.change text)
  | .world host => s.setHost host

def run (s : Session) (ops : List Operation) : Session :=
  ops.foldl perform s

/-- An operation, or loading a saved game. -/
inductive Act where
  | operation (op : Operation)
  | load (bytes : MessagePack.Bytes)

def act (s : Session) : Act → Session
  | .operation op => s.perform op
  | .load bytes => (s.load bytes).2

def acts (s : Session) (as : List Act) : Session :=
  as.foldl act s

/-- The rooms that an operation enters on its own have `P`. -/
def Operation.Enters (P : UInt16 → Prop) (op : Operation) : Prop :=
  ∀ id, op = .enterRoom id → P id

section Changes
variable {P : UInt16 → Prop} {id : UInt16}

theorem changes_queueEntrances (s : Session) (ids : List ChunkId) : s.Changes P (s.queueEntrances ids) := by
  induction ids generalizing s with
  | nil => exact .refl
  | cons id ids ih => exact .head (.interpret s [id] s.rooms.previous) (ih _)

theorem changes_enterRoom (s : Session) (h : P id) : s.Changes P (s.enterRoom id).2 := by
  have hmove : s.Changes P (s.moveTo id).2 := .single (.moveTo s h)
  rw [enterRoom_eq]
  split
  · next heq => rwa [heq] at hmove
  · next heq =>
    rw [heq] at hmove
    exact hmove.trans (changes_queueEntrances _ _)

theorem fulfil_changeRoom (s : Session) (room : UInt16) (position : Option Script.Position) :
    ∃ host, s.fulfil (.changeRoom room position) = (s.enterRoom room).2.setHost host := by
  unfold fulfil
  dsimp only
  obtain ⟨result, t⟩ := s.enterRoom room
  cases result with
  | error e => exact ⟨t.host, rfl⟩
  | ok _ =>
      cases position with
      | none => exact ⟨t.host, rfl⟩
      | some p => exact ⟨_, rfl⟩

theorem changes_fulfil (hP : ∀ id, id ≠ 0 → P id) (s : Session) {r : Script.Request} (hr : r.Proper) :
    s.Changes P (s.fulfil r) := by
  cases r with
  | startConversation name => exact .single (.aside (.startConversation s name))
  | changeRoom room position =>
      obtain ⟨host, heq⟩ := s.fulfil_changeRoom room position
      rw [heq]
      exact (changes_enterRoom s (hP room (hr room position rfl))).tail (.aside (.host _ host))

theorem changes_foldl_fulfil (hP : ∀ id, id ≠ 0 → P id) (s : Session) {rs : List Script.Request}
    (hrs : ∀ r ∈ rs, r.Proper) : s.Changes P (rs.foldl fulfil s) := by
  induction rs generalizing s with
  | nil => exact .refl
  | cons r rs ih =>
      rw [List.foldl_cons]
      exact (changes_fulfil hP s (hrs r List.mem_cons_self)).trans
        (ih _ fun r' hr' => hrs r' (List.mem_cons_of_mem r hr'))

theorem changes_tick (hP : ∀ id, id ≠ 0 → P id) (s : Session) : s.Changes P s.tick.2 :=
  .head (.play s) (changes_foldl_fulfil hP _ (s.playback.proper_tick s.situation))

theorem changes_dispatchVerb (s : Session) (verb : Verb) (name : String) :
    s.Changes P (s.dispatchVerb verb name).2 := by
  unfold dispatchVerb
  split
  · exact .refl
  · exact .single (.interpret s _ _)

/-- Every operation is made of changes. -/
theorem changes_perform (hP : ∀ id, id ≠ 0 → P id) (s : Session) {op : Operation} (hop : op.Enters P) :
    s.Changes P (s.perform op) := by
  cases op with
  | loadInventory => exact .single (.loadInventory s)
  | enterRoom id => exact changes_enterRoom s (hop id rfl)
  | dispatchVerb verb name => exact changes_dispatchVerb s verb name
  | tick => exact changes_tick hP s
  | startConversation name => exact .single (.aside (.startConversation s name))
  | conversationLines => exact .single (.aside (.conversationLines s))
  | pick name => exact .single (.aside (.pick s name))
  | hotspotAt x y => exact .single (.aside (.hotspotAt s x y))
  | setVariable name value => exact .single (.aside (.setVars (s.vars.sameDeclarations_set name value)))
  | changeVariables text => exact .single (.aside (.setVars (s.vars.sameDeclarations_change text)))
  | world host => exact .single (.aside (.host s host))

theorem changes_run (hP : ∀ id, id ≠ 0 → P id) (s : Session) {ops : List Operation}
    (hops : ∀ op ∈ ops, op.Enters P) : s.Changes P (s.run ops) := by
  induction ops generalizing s with
  | nil => exact .refl
  | cons op ops ih =>
      rw [run, List.foldl_cons]
      exact (changes_perform hP s (hops op List.mem_cons_self)).trans
        (ih _ fun op' hop' => hops op' (List.mem_cons_of_mem op hop'))

theorem game_of_changes {s s' : Session} (h : s.Changes P s') :
    s'.config = s.config ∧ s'.resources = s.resources := by
  induction h with
  | refl => exact ⟨rfl, rfl⟩
  | @tail t u _ hc ih =>
      have hgame : u.config = t.config ∧ u.resources = t.resources := by
        cases hc with
        | loadInventory => exact ⟨t.restocked_loadInventory.config, t.restocked_loadInventory.resources⟩
        | @moveTo id _ => exact ⟨(t.moved_moveTo id).config, (t.moved_moveTo id).resources⟩
        | interpret _ _ => exact ⟨rfl, rfl⟩
        | play => exact ⟨rfl, rfl⟩
        | aside ha => exact ⟨ha.config, ha.resources⟩
      exact ⟨hgame.1.trans ih.1, hgame.2.trans ih.2⟩

end Changes

/-! ### Runs -/

/-- What no change breaks holds after every operation. -/
theorem perform_induction {Q : Session → Prop}
    (hchange : ∀ {s s'}, s.Change (fun _ => True) s' → Q s → Q s') {s : Session} (h : Q s) (op : Operation) :
    Q (s.perform op) := by
  have hchanges : s.Changes (fun _ => True) (s.perform op) :=
    changes_perform (fun _ _ => trivial) s fun _ _ => trivial
  generalize s.perform op = s' at hchanges ⊢
  induction hchanges with
  | refl => exact h
  | tail _ hc ih => exact hchange hc ih

theorem restore_induction {Q : Session → Prop} {state : SaveState}
    (hstep : ∀ {s s'}, s.LoadStep state s' → Q s → Q s') {s : Session} (h : Q (s.vacated state)) :
    Q (s.restore state).2 := by
  have hsteps := s.loadSteps_vacated state
  generalize (s.restore state).2 = s' at hsteps ⊢
  induction hsteps with
  | refl => exact h
  | tail _ hs ih => exact hstep hs ih

/-- What no change and no step of loading breaks holds after any operations and loads. -/
theorem acts_induction {Q : Session → Prop}
    (hchange : ∀ {s s'}, s.Change (fun _ => True) s' → Q s → Q s')
    (hstep : ∀ {state s s'}, s.LoadStep state s' → Q s → Q s') {s : Session} (h : Q s) (as : List Act) :
    Q (s.acts as) := by
  induction as generalizing s with
  | nil => exact h
  | cons a as ih =>
      refine ih ?_
      cases a with
      | operation op => exact perform_induction hchange h op
      | load bytes =>
          change Q (s.load bytes).2
          unfold load
          split
          · exact h
          · next state _ => exact restore_induction hstep (hstep (.vacate s) h)

end Session
end Adventure
