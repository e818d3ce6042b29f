import Adventure.Proofs.Script.Playing
import Adventure.Proofs.Session.Change
/-! What is loaded is what the texts define: the room that the session is in, the variables declared in it,
and the conversation. -/
namespace Adventure.Session
variable {P : UInt16 → Prop} {s s' : Session}

/-- No room was entered yet, or the room is the present one of the texts, if they define it; its
variables are declared, and the conversation is one of a text. -/
structure AsWritten (P : UInt16 → Prop) (s : Session) : Prop where
  room : s.room = none ∧ s.rooms.current = 0 ∨
    P s.rooms.current ∧ s.room.map Room.outline =
      (s.resources.roomDef? s.rooms.current).map fun d => (s.rooms.current, d.locals, d.randoms)
  vars : s.vars.SameDeclarations s.declared
  conversation : ∀ c ∈ s.conversation, ∃ c₀, s.resources.conversation? c.name = some c₀ ∧ c₀.Continues c

theorem asWritten_start (config : SessionConfig) (resources : Resources) (host : Host) :
    (start config resources host).AsWritten P where
  room := .inl ⟨rfl, rfl⟩
  vars := .refl _
  conversation _ hc := nomatch hc

theorem declared_eq_of_outline {s s' : Session} (h : s'.room.map Room.outline = s.room.map Room.outline) :
    s'.declared = s.declared := by
  unfold declared
  cases hroom : s.room with
  | none =>
      rw [hroom, Option.map_none, Option.map_eq_none_iff] at h
      rw [h]
  | some room =>
      rw [hroom, Option.map_some, Option.map_eq_some_iff] at h
      obtain ⟨room', hroom', houtline⟩ := h
      simp only [Room.outline, Prod.mk.injEq] at houtline
      rw [hroom', Option.map_some, Option.map_some, Room.declareVariables_eq, Room.declareVariables_eq,
        houtline.2.1, houtline.2.2]

theorem Aside.outline (h : s.Aside s') : s'.room.map Room.outline = s.room.map Room.outline := by
  have hroom := congrArg (Option.map Room.outline) h.room
  simp only [Option.map_map] at hroom
  exact hroom

theorem AsWritten.change (h : s.AsWritten P) (hc : s.Change P s') : s'.AsWritten P := by
  cases hc with
  | loadInventory =>
      have hs := s.restocked_loadInventory
      have hdeclared : s.loadInventory.2.declared = s.declared := declared_eq_of_outline (by rw [hs.room])
      refine ⟨?_, ?_, ?_⟩
      · rw [hs.room, hs.rooms, hs.resources]
        exact h.room
      · rw [hs.vars, hdeclared]
        exact h.vars
      · rw [hs.conversation, hs.resources]
        exact h.conversation
  | @moveTo id hP =>
      have hs := s.moved_moveTo id
      refine ⟨.inr ?_, hs.vars, fun c hc => ?_⟩
      · rw [hs.rooms, hs.resources]
        exact ⟨hP, hs.room⟩
      · rw [hs.conversation] at hc
        cases hc
  | interpret candidates previous =>
      refine ⟨h.room, ?_, h.conversation⟩
      have hvars : (s.playback.interpret candidates previous).2.vars.SameDeclarations s.vars := by
        rw [Script.Playback.interpret_vars]
        exact s.vars.sameDeclarations_reroll _
      exact hvars.trans h.vars
  | play =>
      exact ⟨h.room, (s.playback.sameDeclarations_tick s.situation).trans h.vars, h.conversation⟩
  | aside ha =>
      refine ⟨?_, ?_, fun c' hc' => ?_⟩
      · rw [ha.rooms, ha.resources, ha.outline]
        refine h.room.imp_left fun hroom => ⟨?_, hroom.2⟩
        have hnone := ha.outline
        rwa [hroom.1, Option.map_none, Option.map_eq_none_iff] at hnone
      · rw [declared_eq_of_outline ha.outline]
        exact ha.vars.trans h.vars
      · rw [ha.resources]
        rcases ha.conversation c' hc' with ⟨c, hc, hplayed⟩ | hread
        · obtain ⟨c₀, hc₀, hbefore⟩ := h.conversation c hc
          exact ⟨c₀, hplayed.name ▸ hc₀, hbefore.trans hplayed⟩
        · exact ⟨c', hread, .refl c'⟩

theorem AsWritten.inRange (h : s.AsWritten P) {c : Conversation} (hc : s.conversation = some c) : c.InRange := by
  obtain ⟨c₀, hc₀, hplayed⟩ := h.conversation c hc
  obtain ⟨bytes, -, hparse⟩ := Option.bind_eq_some_iff.1 hc₀
  cases hread : Conversation.parse c.name (.ofBytes (Conversation.resourceName c.name) bytes) with
  | error e => rw [hread] at hparse; cases hparse
  | ok c₁ => rw [hread] at hparse; cases hparse; exact hplayed.inRange (Conversation.parse_ok hread).2

theorem AsWritten.changes (h : s.AsWritten P) (hc : s.Changes P s') : s'.AsWritten P := by
  induction hc with
  | refl => exact h
  | tail _ hc ih => exact ih.change hc

end Adventure.Session
