import Adventure.Proofs.Conversation.Pick
import Adventure.Proofs.Session.Change
/-! What a pick says. The answers are looked up by the name alone, in the whole conversation, so that they
are those of the picked entry only where the first entry of the name answers the same. -/
namespace Adventure

/-- The replies of an entry, as the host is told of them. -/
def Entry.speech (e : Entry) : List HostEvent :=
  e.replies.map fun (speaker, text) => .talk speaker text

theorem Entry.speech_inj {e f : Entry} : e.speech = f.speech ↔ e.replies = f.replies := by
  constructor
  · intro h
    exact List.map_injective_iff.2 (fun _ _ heq => by simpa [Prod.ext_iff] using heq) h
  · intro h
    rw [speech, speech, h]

theorem Entry.speech_eq_nil_iff {e : Entry} : e.speech = [] ↔ e.replies = [] :=
  List.map_eq_nil_iff

namespace Conversation
variable {c : Conversation} {name : String} {e : Entry}

theorem replies_speech (h : c.entry? name = some e) :
    (c.replies name).map (fun line => HostEvent.talk line.speaker line.text) = e.speech := by
  rw [replies, h, List.map_map]
  rfl

/-- What is offered is an entry of the conversation. -/
theorem Offers.exists_entry (h : c.Offers name) : ∃ e, c.entry? name = some e := by
  obtain ⟨_, _, i, _, hnamed, _⟩ := offers_iff.1 h
  obtain ⟨e, he, hname⟩ := exists_entryAt?_of_isNamed hnamed
  exact Option.isSome_iff_exists.1 (List.find?_isSome.2 ⟨e, List.mem_of_getElem? he, hname⟩)

/-- Where the name is offered, the first entry of the name answers like the one that is picked, or not at
all if the name is shadowed. -/
def AnswersFor (c : Conversation) (name : String) : Prop :=
  c.Offers name → ∃ first, c.entry? name = some first ∧
    ((∃ i e, c.Picks name i e ∧ e.replies = first.replies) ∨ c.Shadows name ∧ first.replies = [])

/-- All entries have names of their own. -/
def Distinct (c : Conversation) : Prop :=
  ∀ i j e f, c.entryAt? i = some e → c.entryAt? j = some f → Text.same e.name f.name → i = j

theorem entry?_same (h : c.entry? name = some e) : Text.same e.name name := by
  unfold entry? at h
  have hname := List.find?_some h
  exact hname

/-- The only entry of its name is the first one. -/
theorem Distinct.eq_first (h : c.Distinct) {first : Entry} {i : Nat} (hfirst : c.entry? name = some first)
    (he : c.entryAt? i = some e) (hname : Text.same e.name name) : e = first := by
  obtain ⟨k, hk⟩ := List.getElem?_of_mem (List.mem_of_find?_eq_some hfirst)
  have hsame : Text.same e.name first.name := by
    rw [Text.same_iff, Text.same_iff.1 hname, Text.same_iff.1 (entry?_same hfirst)]
  obtain rfl : i = k := h i k e first he hk hsame
  exact Option.some.inj (he.symm.trans hk)

theorem Distinct.answersFor (h : c.Distinct) (name : String) : c.AnswersFor name := by
  intro hoffers
  obtain ⟨first, hfirst⟩ := hoffers.exists_entry
  refine ⟨first, hfirst, .inl ?_⟩
  rcases hoffers.picks_or_shadows with ⟨i, e, hpicks⟩ | hshadows
  · obtain ⟨⟨_, _, _, hf⟩, -⟩ := id hpicks
    have heq : e = first := h.eq_first hfirst hf.entry hf.named
    exact ⟨i, e, hpicks, by rw [heq]⟩
  · -- The hidden entry and the shown one would have to be the same.
    obtain ⟨_, _, _, _, f, hf, hhidden, i, -, hnamed, hshown⟩ := hshadows
    obtain ⟨e, he, hname⟩ := exists_entryAt?_of_isNamed hnamed
    have heq : e = f := (h.eq_first hfirst he hname).trans (h.eq_first hfirst hf.entry hf.named).symm
    rw [isShownAt_of_entryAt? he, heq] at hshown
    exact absurd hshown hhidden

end Conversation

namespace Session
open Conversation
variable {s : Session} {c : Conversation} {name : String}

/-- A pick says the replies of the entry that it picks, and nothing if it picks none. -/
def SpeaksForPicked (s : Session) (name : String) : Prop :=
  ∃ said, (s.pick name).2.host.events = s.host.events ++ said ∧
    ((s.pick name).1 = false → said = []) ∧
    ((s.pick name).1 = true → ∃ c ∈ s.conversation, ∃ i e, (c.currentLines s.vars).2.Picks name i e ∧
      said = e.speech)

theorem pick_of_offers {first : Entry} (hc : s.conversation = some c) (h : (c.currentLines s.vars).2.Offers name)
    (hfirst : Conversation.entry? (c.currentLines s.vars).2 name = some first) :
    (s.pick name).2.host.events = s.host.events ++ first.speech := by
  have hany : ((c.currentLines s.vars).1.any fun line => Text.same line.entry name) = true :=
    List.any_eq_true.2 h
  unfold pick
  simp only [hc, hany, if_true, foldl_tell, ← replies_speech hfirst]
  rfl

theorem pick_of_not_offers (hc : s.conversation = some c) (h : ¬(c.currentLines s.vars).2.Offers name) :
    (s.pick name).2.host.events = s.host.events := by
  have hany : ¬((c.currentLines s.vars).1.any fun line => Text.same line.entry name) = true :=
    fun hany => h (List.any_eq_true.1 hany)
  unfold pick
  simp only [hc, hany]
  rfl

theorem pick_accepted_iff (hc : s.conversation = some c) (name : String) :
    (s.pick name).1 = true ↔ ∃ i e, (c.currentLines s.vars).2.Picks name i e := by
  rw [← accepted_pick_iff s.vars]
  unfold pick
  simp only [hc, foldl_tell]
  rfl

theorem pick_of_none (h : s.conversation = none) (name : String) : s.pick name = (false, s) := by
  simp only [pick, h]

theorem speaksForPicked_of_none (h : s.conversation = none) (name : String) : s.SpeaksForPicked name := by
  rw [SpeaksForPicked, pick_of_none h]
  exact ⟨[], (List.append_nil _).symm, fun _ => rfl, fun hpicked => nomatch hpicked⟩

theorem SpeaksForPicked.answersFor (h : s.SpeaksForPicked name) (hc : s.conversation = some c) :
    (c.currentLines s.vars).2.AnswersFor name := by
  intro hoffers
  obtain ⟨said, hsaid, hrefused, hpicked⟩ := h
  obtain ⟨first, hfirst⟩ := hoffers.exists_entry
  rw [pick_of_offers hc hoffers hfirst, List.append_cancel_left_eq] at hsaid
  refine ⟨first, hfirst, ?_⟩
  by_cases hpicks : ∃ i e, (c.currentLines s.vars).2.Picks name i e
  · obtain ⟨c', hc', i, e, he, rfl⟩ := hpicked ((pick_accepted_iff hc name).2 hpicks)
    obtain rfl := Option.some.inj (hc.symm.trans hc')
    exact .inl ⟨i, e, he, Entry.speech_inj.1 hsaid.symm⟩
  · have hnot : (s.pick name).1 = false := Bool.eq_false_iff.2 (mt (pick_accepted_iff hc name).1 hpicks)
    rw [hrefused hnot] at hsaid
    exact .inr ⟨hoffers.picks_or_shadows.resolve_left hpicks, Entry.speech_eq_nil_iff.1 hsaid⟩

theorem speaksForPicked_of_answersFor (hc : s.conversation = some c)
    (h : (c.currentLines s.vars).2.AnswersFor name) : s.SpeaksForPicked name := by
  have haccepted := pick_accepted_iff hc name
  by_cases hoffers : (c.currentLines s.vars).2.Offers name
  · obtain ⟨first, hfirst, ⟨i, e, hpicks, hreplies⟩ | ⟨hshadows, hsilent⟩⟩ := h hoffers
    · refine ⟨first.speech, pick_of_offers hc hoffers hfirst, fun hnot => ?_, fun _ => ?_⟩
      · exact absurd (haccepted.2 ⟨i, e, hpicks⟩) (Bool.eq_false_iff.1 hnot)
      · exact ⟨c, hc, i, e, hpicks, (Entry.speech_inj.2 hreplies).symm⟩
    · refine ⟨first.speech, pick_of_offers hc hoffers hfirst, fun _ => ?_, fun hpicked => ?_⟩
      · exact Entry.speech_eq_nil_iff.2 hsilent
      · obtain ⟨i, e, hpicks⟩ := haccepted.1 hpicked
        exact absurd hshadows hpicks.not_shadows
  · refine ⟨[], ?_, fun _ => rfl, fun hpicked => ?_⟩
    · rw [pick_of_not_offers hc hoffers, List.append_nil]
    · obtain ⟨i, e, hpicks⟩ := haccepted.1 hpicked
      exact absurd hpicks.offers hoffers

/-- A pick speaks for the entry that it picks just if the first entry of the name does. -/
theorem speaksForPicked_iff (s : Session) (name : String) :
    s.SpeaksForPicked name ↔ ∀ c ∈ s.conversation, (c.currentLines s.vars).2.AnswersFor name := by
  constructor
  · intro h c hc
    exact h.answersFor hc
  · intro h
    cases hc : s.conversation with
    | none => exact speaksForPicked_of_none hc name
    | some c => exact speaksForPicked_of_answersFor hc (h c hc)

/-- Where all entries have names of their own, every pick speaks for the entry that it picks. -/
theorem speaksForPicked_of_distinct (h : ∀ c ∈ s.conversation, (c.currentLines s.vars).2.Distinct)
    (name : String) : s.SpeaksForPicked name := by
  cases hc : s.conversation with
  | none => exact speaksForPicked_of_none hc name
  | some c => exact speaksForPicked_of_answersFor hc ((h c hc).answersFor name)

/-- Two nodes, each with an entry of the same name. -/
def echoes : Resources :=
  Resources.inMemory.insert "a.cnv"
    "Node a\nEntry x\nReply 1 A\nGoto b\nNode b\nEntry x\nReply 2 B\n".toUTF8.toList

/-- At the second node the pick speaks for the entry of the first one. -/
theorem echoes_not_speaksForPicked :
    ¬((start .standard echoes (.silent false)).run [.startConversation "a", .pick "x"]).SpeaksForPicked "x" := by
  generalize hs : (start .standard echoes (.silent false)).run [.startConversation "a", .pick "x"] = s
  have hpick : (s.pick "x").1 = true ∧ (s.pick "x").2.host.events = s.host.events ++ [.talk 1 "A"] ∧
      (s.conversation.bind fun c => ((c.currentLines s.vars).2.picked? "x").map Entry.speech) =
        some [.talk 2 "B"] := by
    subst hs
    decide +kernel
  obtain ⟨haccepted, hevents, hentry⟩ := hpick
  rintro ⟨said, hsaid, -, hpicked⟩
  obtain ⟨c, hc, i, e, hpicks, rfl⟩ := hpicked haccepted
  rw [hc, Option.bind_some, hpicks.picked?_eq, Option.map_some, Option.some.injEq] at hentry
  rw [hevents, hentry, List.append_cancel_left_eq] at hsaid
  exact absurd hsaid (by decide)

end Session
end Adventure
