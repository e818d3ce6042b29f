import Mathlib.Data.List.Induction
import Adventure.Proofs.Script.Writes
import Adventure.Room.Object
/-! The answers that objects keep for their verbs. An answer is kept while no variable is written, but it
depends on the chunks as well: it is out of date once all the chunks behind it have been retired. -/
namespace Adventure

open Script (Chunk ChunkId Library Playback Situation Store)
open Variables (writeCount)

namespace PerVerb
variable {α : Type}

@[simp] theorem get_set_self (p : PerVerb α) (verb : Verb) (value : α) : (p.set verb value).get verb = value := by
  cases verb <;> rfl

theorem get_set_of_ne (p : PerVerb α) {verb verb' : Verb} (h : verb' ≠ verb) (value : α) :
    (p.set verb value).get verb' = p.get verb' := by
  cases verb <;> cases verb' <;> first | rfl | exact absurd rfl h

@[simp] theorem get_const (value : α) (verb : Verb) : (const value).get verb = value := by
  cases verb <;> rfl

end PerVerb

/-! ### Retirement -/

namespace Script

/-- The chunk is not retired and has its conditions met. -/
def Store.IsOpen (store : Store) (vars : Variables) (id : ChunkId) : Prop :=
  ∃ c, store.get? id = some c ∧ c.retired = false ∧ c.conditionsMet vars = true

def Store.IsRetired (store : Store) (id : ChunkId) : Prop :=
  ∃ c, store.get? id = some c ∧ c.retired = true

/-- The chunks keep their conditions, and none comes back from retirement. -/
structure Store.Ages (store store' : Store) : Prop where
  conditions : ∀ id, (store'.get? id).map Chunk.conditions = (store.get? id).map Chunk.conditions
  retired : ∀ id, store.IsRetired id → store'.IsRetired id

variable {store store' store'' : Store} {id : ChunkId}

theorem Store.Ages.refl (store : Store) : store.Ages store :=
  ⟨fun _ => rfl, fun _ h => h⟩

theorem Store.Ages.trans (h : store.Ages store') (h' : store'.Ages store'') : store.Ages store'' :=
  ⟨fun id => (h'.conditions id).trans (h.conditions id), fun id hr => h'.retired id (h.retired id hr)⟩

theorem Store.Ages.isOpen_iff (h : store.Ages store') (vars : Variables) (id : ChunkId) :
    store'.IsOpen vars id ↔ store.IsOpen vars id ∧ ¬store'.IsRetired id := by
  have hconditions := h.conditions id
  constructor
  · rintro ⟨c', hc', hr', hmet⟩
    have hnot : ¬store'.IsRetired id := by
      rintro ⟨d, hd, hr⟩
      cases hd.symm.trans hc'
      rw [hr'] at hr
      cases hr
    rw [hc', Option.map_some, eq_comm, Option.map_eq_some_iff] at hconditions
    obtain ⟨c, hc, hsame⟩ := hconditions
    have hr : c.retired = false := Bool.eq_false_iff.2 fun hr => hnot (h.retired id ⟨c, hc, hr⟩)
    rw [Chunk.conditionsMet, ← hsame] at hmet
    exact ⟨⟨c, hc, hr, hmet⟩, hnot⟩
  · rintro ⟨⟨c, hc, -, hmet⟩, hnot⟩
    rw [hc, Option.map_some, Option.map_eq_some_iff] at hconditions
    obtain ⟨c', hc', hsame⟩ := hconditions
    rw [Chunk.conditionsMet, ← hsame] at hmet
    exact ⟨c', hc', Bool.eq_false_iff.2 fun hr => hnot ⟨c', hc', hr⟩, hmet⟩

theorem Library.ages_retire (l : Library) (id : ChunkId) : l.store.Ages (l.retire id).store := by
  cases hc : l.store.get? id with
  | none =>
      simp only [retire, hc]
      exact .refl l.store
  | some c =>
      rw [retire_of_get?_eq_some hc]
      refine ⟨fun j => ?_, fun j hr => ?_⟩
      · rw [Store.get?_modify]
        split
        · next hj => rw [hj, Option.map_map]; rfl
        · rfl
      · by_cases hj : j = id
        · exact ⟨c.retire, by rw [Store.get?_modify, if_pos hj, hc]; rfl, rfl⟩
        · obtain ⟨d, hd, hr⟩ := hr
          exact ⟨d, by rw [Store.get?_modify, if_neg hj, hd], hr⟩

theorem Playback.ages_tick (p : Playback) (situation : Situation) :
    p.library.store.Ages (p.tick situation).playback.library.store where
  conditions id := by
    have hfresh := congrArg (Option.map Chunk.conditions) ((p.plays_tick situation).chunks id)
    rw [Option.map_map, Option.map_map] at hfresh
    exact hfresh
  retired id hr := by
    obtain ⟨c, hc, hr⟩ := hr
    have hround := Library.playQueue_retired p.library situation p.interpreter.queue p.openScene id
    rw [← round, hc, Option.map_some, hr, Option.map_eq_some_iff] at hround
    obtain ⟨c', hc', hr'⟩ := hround
    unfold Store.IsRetired
    rw [tick_store, hc']
    split
    · refine ⟨c'.finish, rfl, ?_⟩
      unfold Chunk.finish
      split
      · rfl
      · exact hr'
    · exact ⟨c', rfl, hr'⟩

end Script

/-! ### Questions and what happens between them -/

namespace Object

theorem isActive_of_kept {o : Object} {verb : Verb} {vars : Variables} {active : Bool}
    (h : o.answers.get verb = some (vars.lastChanged, active)) (store : Store) :
    o.isActive verb store vars = (active, o) := by
  simp [isActive, h]

theorem isActive_of_not_kept {o : Object} {verb : Verb} {vars : Variables}
    (h : ∀ active, o.answers.get verb ≠ some (vars.lastChanged, active)) (store : Store) :
    let active := o.evaluate verb store vars
    o.isActive verb store vars =
      (active, { o with answers := o.answers.set verb (some (vars.lastChanged, active)) }) := by
  unfold isActive
  dsimp only
  split
  · next count active hanswer =>
    have hcount : count ≠ vars.lastChanged := fun hcount => h active (hcount ▸ hanswer)
    rw [if_neg hcount]
  · rfl

theorem evaluate_iff {o : Object} {verb : Verb} {store : Store} {vars : Variables} :
    o.evaluate verb store vars = true ↔ ∃ id ∈ o.chunks.get verb, store.IsOpen vars id := by
  simp [evaluate, Store.IsOpen, Option.any_eq_true]

/-- An object and the scripts that its chunks are run by. -/
structure Stage where
  object : Object
  playback : Playback

inductive Event where
  | ask (verb : Verb)
  | set (name : String) (value : UInt8)
  | change (text : String)
  | reroll (dice : Random.Stream)
  | clearLocals
  | interpret (candidates : List ChunkId) (previous : UInt16)
  | tick (situation : Situation)
  | retire (id : ChunkId)
  | world (host : Host)

namespace Stage

/-- Whether the verb would do something, as the object answers. -/
def answer (s : Stage) (verb : Verb) : Bool :=
  (s.object.isActive verb s.playback.library.store s.playback.vars).1

/-- The same with no answer kept. -/
def current (s : Stage) (verb : Verb) : Bool :=
  s.object.evaluate verb s.playback.library.store s.playback.vars

def write (s : Stage) (vars : Variables) : Stage :=
  { s with playback := { s.playback with vars } }

def after (s : Stage) : Event → Stage
  | .ask verb => { s with object := (s.object.isActive verb s.playback.library.store s.playback.vars).2 }
  | .set name value => s.write (s.playback.vars.set name value)
  | .change text => s.write (s.playback.vars.change text)
  | .reroll dice => s.write (s.playback.vars.reroll dice).1
  | .clearLocals => s.write s.playback.vars.clearLocals
  | .interpret candidates previous => { s with playback := (s.playback.interpret candidates previous).2 }
  | .tick situation => { s with playback := (s.playback.tick situation).playback }
  | .retire id => { s with playback := { s.playback with library := s.playback.library.retire id } }
  | .world host => { s with playback := { s.playback with host } }

def run (s : Stage) (events : List Event) : Stage :=
  events.foldl after s

/-- How many writes to variables an event makes. -/
def writesOf (s : Stage) : Event → Nat
  | .ask _ => 0
  | .set name _ => writeCount [name]
  | .change text => writeCount (Variables.changedNames text)
  | .reroll _ => writeCount (Variables.rolledNames s.playback.vars.randoms)
  | .clearLocals => 1
  | .interpret _ _ => writeCount (Variables.rolledNames s.playback.vars.randoms)
  | .tick situation => writeCount (s.playback.tickNames situation)
  | .retire _ => 0
  | .world _ => 0

/-- How many writes to variables a run makes. -/
def writes (s : Stage) : List Event → Nat
  | [] => 0
  | e :: events => s.writesOf e + (s.after e).writes events

/-- The chunk may run, as far as retirement and conditions go. -/
def IsOpen (s : Stage) (id : ChunkId) : Prop :=
  s.playback.library.store.IsOpen s.playback.vars id

def IsRetired (s : Stage) (id : ChunkId) : Prop :=
  s.playback.library.store.IsRetired id

/-- The verb was asked for when some of its chunks were open. No variable was written since, but all those
chunks have been retired. -/
def Outdated (s : Stage) (events : List Event) (verb : Verb) : Prop :=
  ∃ earlier later, events = earlier ++ .ask verb :: later ∧ (s.run earlier).writes (.ask verb :: later) = 0 ∧
    (∃ id ∈ s.object.chunks.get verb, (s.run earlier).IsOpen id) ∧
    ∀ id ∈ s.object.chunks.get verb, (s.run earlier).IsOpen id → (s.run events).IsRetired id

variable {s : Stage} {e : Event} {events later : List Event} {verb : Verb}

theorem run_append (s : Stage) (events later : List Event) : s.run (events ++ later) = (s.run events).run later :=
  List.foldl_append

theorem writes_append (s : Stage) (events later : List Event) :
    s.writes (events ++ later) = s.writes events + (s.run events).writes later := by
  induction events generalizing s with
  | nil => exact (Nat.zero_add _).symm
  | cons e events ih =>
      rw [List.cons_append, writes, writes, ih, Nat.add_assoc]
      rfl

theorem writes_after (s : Stage) (e : Event) :
    s.playback.vars.Writes (s.writesOf e) (s.after e).playback.vars := by
  cases e <;> simp only [writesOf, after, write]
  case set name value => exact s.playback.vars.writes_set name value
  case change text => exact s.playback.vars.writes_change text
  case reroll dice => exact s.playback.vars.writes_reroll dice
  case clearLocals => exact Variables.Writes.none.clearLocals
  case interpret candidates previous => exact s.playback.writes_interpret candidates previous
  case tick situation => exact s.playback.writes_tick situation
  all_goals exact .none

theorem writes_run (s : Stage) (events : List Event) :
    s.playback.vars.Writes (s.writes events) (s.run events).playback.vars := by
  induction events generalizing s with
  | nil => exact .none
  | cons e events ih => exact (s.writes_after e).trans (ih (s.after e))

theorem ages_after (s : Stage) (e : Event) :
    s.playback.library.store.Ages (s.after e).playback.library.store := by
  cases e with
  | interpret candidates previous =>
      rw [after, Playback.interpret_library]
      exact .refl _
  | tick situation => exact s.playback.ages_tick situation
  | retire id => exact s.playback.library.ages_retire id
  | _ => exact .refl _

theorem ages_run (s : Stage) (events : List Event) :
    s.playback.library.store.Ages (s.run events).playback.library.store := by
  induction events generalizing s with
  | nil => exact .refl _
  | cons e events ih => exact (s.ages_after e).trans (ih (s.after e))

theorem isOpen_run_iff (h : s.writes events = 0) (id : ChunkId) :
    (s.run events).IsOpen id ↔ s.IsOpen id ∧ ¬(s.run events).IsRetired id := by
  have hwrites := s.writes_run events
  rw [h] at hwrites
  unfold IsOpen
  rw [hwrites.eq_of_zero]
  exact (s.ages_run events).isOpen_iff s.playback.vars id

/-! ### Kept answers -/

/-- No answer to any verb is kept. -/
def Unasked (s : Stage) : Prop :=
  ∀ verb, s.object.answers.get verb = none

/-- The answer to the verb is kept at the present count of writes. -/
def Keeps (s : Stage) (verb : Verb) (active : Bool) : Prop :=
  s.object.answers.get verb = some (s.playback.vars.lastChanged, active)

theorem answer_of_keeps {active : Bool} (h : s.Keeps verb active) : s.answer verb = active := by
  rw [answer, isActive_of_kept h]

theorem answer_of_not_keeps (h : ∀ active, ¬s.Keeps verb active) : s.answer verb = s.current verb := by
  rw [answer, isActive_of_not_kept h]
  rfl

/-- A question is answered as before, or it is answered anew and the answer is kept. -/
theorem after_ask (s : Stage) (verb : Verb) :
    s.after (.ask verb) = s ∧ (∃ active, s.Keeps verb active) ∨
      s.after (.ask verb) = { s with object := { s.object with
        answers := s.object.answers.set verb (some (s.playback.vars.lastChanged, s.current verb)) } } ∧
        ∀ active, ¬s.Keeps verb active := by
  by_cases h : ∃ active, s.Keeps verb active
  · refine .inl ⟨?_, h⟩
    obtain ⟨active, hkeeps⟩ := h
    rw [after, isActive_of_kept hkeeps]
  · rw [not_exists] at h
    refine .inr ⟨?_, h⟩
    rw [after, isActive_of_not_kept h]
    rfl

theorem chunks_after (s : Stage) (e : Event) : (s.after e).object.chunks = s.object.chunks := by
  cases e with
  | ask verb => rcases s.after_ask verb with ⟨heq, -⟩ | ⟨heq, -⟩ <;> rw [heq]
  | _ => rfl

theorem chunks_run (s : Stage) (events : List Event) : (s.run events).object.chunks = s.object.chunks := by
  induction events generalizing s with
  | nil => rfl
  | cons e events ih => exact (ih (s.after e)).trans (s.chunks_after e)

theorem current_run_iff (s : Stage) (events : List Event) (verb : Verb) :
    (s.run events).current verb = true ↔ ∃ id ∈ s.object.chunks.get verb, (s.run events).IsOpen id := by
  rw [current, evaluate_iff, chunks_run]
  rfl

theorem answers_after (s : Stage) (e : Event) (verb : Verb) :
    (s.after e).object.answers.get verb = s.object.answers.get verb ∨
      e = .ask verb ∧
        (s.after e).object.answers.get verb = some (s.playback.vars.lastChanged, s.current verb) := by
  cases e with
  | ask verb' =>
      rcases s.after_ask verb' with ⟨heq, -⟩ | ⟨heq, -⟩
      · exact .inl (by rw [heq])
      · rw [heq]
        by_cases hverb : verb = verb'
        · subst hverb
          exact .inr ⟨rfl, PerVerb.get_set_self _ verb _⟩
        · exact .inl (PerVerb.get_set_of_ne _ hverb _)
  | _ => exact .inl rfl

/-- An answer that is kept was right when the verb was asked for. -/
theorem exists_asked (hs : s.Unasked) {count : UInt32} {active : Bool}
    (h : (s.run events).object.answers.get verb = some (count, active)) :
    ∃ earlier later, events = earlier ++ .ask verb :: later ∧
      (s.run earlier).playback.vars.lastChanged = count ∧ (s.run earlier).current verb = active := by
  induction events using List.reverseRecOn with
  | nil => cases (hs verb).symm.trans h
  | append_singleton events e ih =>
      rw [run_append] at h
      rcases (s.run events).answers_after e verb with heq | ⟨rfl, heq⟩
      · obtain ⟨earlier, later, rfl, hcount, hactive⟩ := ih (heq.symm.trans h)
        exact ⟨earlier, later ++ [e], by simp, hcount, hactive⟩
      · cases heq.symm.trans h
        exact ⟨events, [], rfl, rfl, rfl⟩

theorem keeps_after_ask (s : Stage) (verb : Verb) : (s.after (.ask verb)).Keeps verb (s.answer verb) := by
  rcases s.after_ask verb with ⟨heq, active, hkeeps⟩ | ⟨heq, hnot⟩
  · rw [heq, answer_of_keeps hkeeps]
    exact hkeeps
  · rw [heq, answer_of_not_keeps hnot]
    exact PerVerb.get_set_self _ verb _

theorem Keeps.after {active : Bool} (h : s.Keeps verb active) (hwrites : s.writesOf e = 0) :
    (s.after e).Keeps verb active := by
  have hvars := s.writes_after e
  rw [hwrites] at hvars
  unfold Keeps
  rw [hvars.eq_of_zero]
  rcases s.answers_after e verb with heq | ⟨rfl, -⟩
  · exact heq.trans h
  · rw [Stage.after, isActive_of_kept h]
    exact h

theorem Keeps.run {active : Bool} (h : s.Keeps verb active) (hwrites : s.writes events = 0) :
    (s.run events).Keeps verb active := by
  induction events generalizing s with
  | nil => exact h
  | cons e events ih =>
      obtain ⟨hfirst, hrest⟩ := Nat.add_eq_zero_iff.1 hwrites
      exact ih (h.after hfirst) hrest

/-! ### Answers out of date -/

theorem Outdated.current_eq_false (h : s.Outdated events verb) : (s.run events).current verb = false := by
  obtain ⟨earlier, later, rfl, hwrites, -, hretired⟩ := h
  refine Bool.eq_false_iff.2 fun hcurrent => ?_
  obtain ⟨id, hid, hopen⟩ := (s.current_run_iff _ verb).1 hcurrent
  rw [run_append] at hretired hopen
  obtain ⟨hearlier, hnot⟩ := (isOpen_run_iff hwrites id).1 hopen
  exact hnot (hretired id hid hearlier)

theorem outdated_of_answer_ne (hs : s.Unasked) (hlt : s.writes events < UInt32.size)
    (hne : (s.run events).answer verb ≠ (s.run events).current verb) : s.Outdated events verb := by
  have hkept : ∃ active, (s.run events).Keeps verb active := by
    by_contra hnot
    exact hne (answer_of_not_keeps (not_exists.1 hnot))
  obtain ⟨active, hkeeps⟩ := hkept
  rw [answer_of_keeps hkeeps] at hne
  obtain ⟨earlier, later, rfl, hcount, hactive⟩ := exists_asked hs hkeeps
  have hwrites : (s.run earlier).writes (.ask verb :: later) = 0 := by
    rw [writes_append] at hlt
    rw [run_append] at hcount
    exact ((s.run earlier).writes_run _).eq_zero_of_lastChanged (by omega) hcount.symm
  have hopen : ∀ id, (s.run (earlier ++ .ask verb :: later)).IsOpen id ↔
      (s.run earlier).IsOpen id ∧ ¬(s.run (earlier ++ .ask verb :: later)).IsRetired id := by
    rw [run_append]
    exact isOpen_run_iff hwrites
  have hcurrent := (s.current_run_iff (earlier ++ .ask verb :: later) verb).2
  cases active with
  | false =>
      obtain ⟨id, hid, hlater⟩ := (s.current_run_iff _ verb).1 (Bool.ne_false_iff.1 (Ne.symm hne))
      have hbefore := (s.current_run_iff earlier verb).2 ⟨id, hid, ((hopen id).1 hlater).1⟩
      rw [hactive] at hbefore
      cases hbefore
  | true =>
      refine ⟨earlier, later, rfl, hwrites, (s.current_run_iff earlier verb).1 hactive, fun id hid hbefore => ?_⟩
      by_contra hnot
      exact hne (hcurrent ⟨id, hid, (hopen id).2 ⟨hbefore, hnot⟩⟩).symm

theorem answer_of_outdated (hs : s.Unasked) (hlt : s.writes events < UInt32.size)
    (h : s.Outdated events verb) : (s.run events).answer verb = true := by
  obtain ⟨earlier, later, rfl, hwrites, hopen, -⟩ := h
  have hcurrent : (s.run earlier).current verb = true := (s.current_run_iff earlier verb).2 hopen
  have hanswer : (s.run earlier).answer verb = true := by
    by_contra hne
    rw [writes_append] at hlt
    have hbefore := outdated_of_answer_ne hs (by omega) (hcurrent ▸ hne)
    rw [hbefore.current_eq_false] at hcurrent
    cases hcurrent
  have hkeeps := keeps_after_ask (s.run earlier) verb
  rw [hanswer] at hkeeps
  rw [run_append]
  exact answer_of_keeps (hkeeps.run ((Nat.zero_add _).symm.trans hwrites))

end Stage

/-- In any run of questions, writes, ticks and retirements an object answers as if it kept no answers, but
for one that is out of date: then it still says yes where nothing is left to do. -/
theorem answer_eq_current_iff (o : Object) (p : Playback) (events : List Event) (verb : Verb) :
    let s : Stage := ⟨{ o with answers := .const none }, p⟩
    s.writes events < UInt32.size →
      ((s.run events).answer verb = (s.run events).current verb ↔ ¬s.Outdated events verb) := by
  intro s hlt
  have hs : s.Unasked := fun verb => PerVerb.get_const none verb
  constructor
  · intro heq hout
    rw [Stage.answer_of_outdated hs hlt hout, hout.current_eq_false] at heq
    cases heq
  · intro hnot
    by_contra hne
    exact hnot (Stage.outdated_of_answer_ne hs hlt hne)

/-- A chest that can be opened once. -/
def chest : ObjectDef where
  name := "Chest"
  rect := ⟨0, 0, 9, 9⟩
  chunks := ⟨[], [], [{ Chunk.ofParts "0100.rom:5" [""] [.ofKeyword "Cursor" "open"] with once := true }]⟩

def chestStage : Stage :=
  let (object, library) := install chest .empty
  ⟨object, { library, interpreter := .ofSeed 0 10, vars := .empty, host := .silent false }⟩

theorem answer_eq_current_iff_chest :
    let s : Stage := ⟨{ chestStage.object with answers := .const none }, chestStage.playback⟩
    let events : List Event := [.ask .use, .set "Open" 1, .ask .use]
    s.writes events < UInt32.size ∧
      ((s.run events).answer .use = (s.run events).current .use ↔ ¬s.Outdated events .use) := by
  intro s events
  have hlt : s.writes events < UInt32.size := by decide +kernel
  exact ⟨hlt, answer_eq_current_iff chestStage.object chestStage.playback events .use hlt⟩

/-- The chest has been opened, and nothing is left to do with it. It was asked before and still says yes. -/
theorem chest_answer_ne_current :
    let s := chestStage.run
      [.ask .use, .interpret (chestStage.object.chunks.get .use) 0, .tick ⟨⟨0, 0⟩, false⟩]
    s.answer .use = true ∧ s.current .use = false := by
  decide +kernel

end Object
end Adventure
