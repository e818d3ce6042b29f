import Adventure.Proofs.Script.Run
/-! When chunks that run once are retired. A signature is marked as removed in the tick in which the last script of
such a chunk leaves the queue. By then the chunk has performed all of its actions, unless one of them stopped it:
the end of a chunk looks the same however it was come to. -/
namespace Adventure.Script

variable {situation : Situation} {store : Store} {id : ChunkId} {c : Chunk} {past : List Call} {call : Call}

/-! ### Completed runs -/

/-- The action is done, and the chunk goes on with the next one. -/
def Outcome.Completes : Outcome → Prop
  | .ok => True
  | .wait _ => True
  | _ => False

instance : DecidablePred Outcome.Completes
  | .ok => .isTrue trivial
  | .wait _ => .isTrue trivial
  | .invalid => .isFalse not_false
  | .stop => .isFalse not_false
  | .hold => .isFalse not_false

instance : DecidablePred Outcome.Stops :=
  fun o => inferInstanceAs (Decidable (o = .stop ∨ o = .invalid))

instance (log : List Beat) : Decidable (Stopped log) :=
  inferInstanceAs (Decidable (∃ call ∈ done log, call.outcome.Stops))

theorem Outcome.completes_iff {o : Outcome} (h : o ≠ .hold) : o.Completes ↔ ¬o.Stops := by
  cases o <;> simp_all [Completes, Stops]

/-- Every action of the chunk has been performed, and none of them stopped it. -/
def Completed (c : Chunk) (log : List Beat) : Prop :=
  ∀ place < c.actions.length, ∃ call ∈ done log,
    call.place = place ∧ c.actions[place]? = some call.action ∧ call.outcome.Completes

instance (c : Chunk) (log : List Beat) : Decidable (Completed c log) :=
  inferInstanceAs (Decidable (∀ place < c.actions.length, ∃ call ∈ done log,
    call.place = place ∧ c.actions[place]? = some call.action ∧ call.outcome.Completes))

/-- The chunk stands where these calls, the tried ones left out, have brought it. -/
structure Reached (c : Chunk) (past : List Call) : Prop where
  places : past.map Call.place = List.range past.length
  actions : ∀ call ∈ past, c.actions[call.place]? = some call.action
  done : ∀ call ∈ past, call.outcome ≠ .hold
  stopped : (∃ call ∈ past, call.outcome.Stops) → c.position = c.actions.length
  going : (¬∃ call ∈ past, call.outcome.Stops) → c.position = past.length

theorem reached_of_fresh (h : c.fresh = c) : Reached c [] where
  places := rfl
  actions _ hcall := nomatch hcall
  done _ hcall := nomatch hcall
  stopped h := by
    obtain ⟨_, hcall, -⟩ := h
    cases hcall
  going _ := Chunk.position_of_fresh h

/-- The next call is for the action after the last one; the chunk has not been stopped before it. -/
theorem Reached.acts (h : Reached c past) (haction : c.currentAction? = some call.action)
    (hplace : call.place = c.position) (hhold : call.outcome ≠ .hold) :
    Reached { c with position := call.outcome.next c.actions.length call.place } (past ++ [call]) := by
  have hlt : c.position < c.actions.length := (List.getElem?_eq_some_iff.1 haction).1
  have hgoing : ¬∃ call ∈ past, call.outcome.Stops := fun hstopped => Nat.ne_of_lt hlt (h.stopped hstopped)
  have hposition := h.going hgoing
  have hstops : (∃ call' ∈ past ++ [call], call'.outcome.Stops) ↔ call.outcome.Stops := by
    simp only [List.mem_append, List.mem_singleton, or_and_right, exists_or, exists_eq_left]
    exact or_iff_right hgoing
  refine ⟨?_, fun call' hcall' => ?_, fun call' hcall' => ?_, fun hstopped => ?_, fun hnot => ?_⟩
  · rw [List.map_append, h.places, List.length_append, List.length_singleton, List.range_succ,
      List.map_singleton, hplace, hposition]
  · rcases List.mem_append.1 hcall' with hcall' | hcall'
    · exact h.actions call' hcall'
    · rw [List.mem_singleton.1 hcall', hplace]
      exact haction
  · rcases List.mem_append.1 hcall' with hcall' | hcall'
    · exact h.done call' hcall'
    · rwa [List.mem_singleton.1 hcall']
  · rcases hstops.1 hstopped with hend | hend <;> rw [hend] <;> rfl
  · rw [hstops] at hnot
    rw [List.length_append, List.length_singleton, ← hposition, ← hplace]
    cases houtcome : call.outcome <;> simp_all [Outcome.next, Outcome.Stops]

/-- A chunk at its end has completed just if it was not stopped. -/
theorem Reached.completes_iff (h : Reached c past) (hend : c.actions.length ≤ c.position) :
    (∀ place < c.actions.length, ∃ call ∈ past,
      call.place = place ∧ c.actions[place]? = some call.action ∧ call.outcome.Completes) ↔
      ¬∃ call ∈ past, call.outcome.Stops := by
  constructor
  · rintro hall ⟨call, hcall, hstops⟩
    have haction := h.actions call hcall
    obtain ⟨call', hcall', hplace, -, hcompletes⟩ := hall call.place (List.getElem?_eq_some_iff.1 haction).1
    -- Each place has one call, so this one both stops the chunk and goes on.
    have hsame : call' = call :=
      List.inj_on_of_nodup_map (h.places ▸ List.nodup_range) hcall' hcall hplace
    subst hsame
    exact (Outcome.completes_iff (h.done call' hcall')).1 hcompletes hstops
  · intro hgoing place hlt
    rw [h.going hgoing] at hend
    have hmem : place ∈ past.map Call.place := by
      rw [h.places]
      exact List.mem_range.2 (Nat.lt_of_lt_of_le hlt hend)
    obtain ⟨call, hcall, rfl⟩ := List.mem_map.1 hmem
    refine ⟨call, hcall, rfl, h.actions call hcall, ?_⟩
    exact (Outcome.completes_iff (h.done call hcall)).2 fun hstops => hgoing ⟨call, hcall, hstops⟩

/-! ### Rounds -/

/-- The calls for a chunk that are done. -/
def callsOf (id : ChunkId) (calls : List Call) : List Call :=
  (calls.filter (·.chunk = id)).filter (·.outcome ≠ .hold)

theorem callsOf_append (id : ChunkId) (cs ds : List Call) :
    callsOf id (cs ++ ds) = callsOf id cs ++ callsOf id ds := by
  simp [callsOf]

/-- A turn of any script, whether it runs the chunk or another one. -/
theorem Reached.turn (h : Reached c past) (hc : store.get? id = some c) (situation : Situation) (q : Queued)
    (scene : Scene) : ∃ c', (q.turn situation store scene).store.get? id = some c' ∧
      Reached c' (past ++ callsOf id (q.call? situation store scene).toList) := by
  have htakes := q.turn_takes situation store scene
  generalize q.call? situation store scene = call? at htakes ⊢
  cases htakes with
  | held _ hidle => exact ⟨c, by rw [hidle.store_eq, hc], by simpa [callsOf] using h⟩
  | spent _ _ hidle => exact ⟨c, by rw [hidle.store_eq, hc], by simpa [callsOf] using h⟩
  | @calls d call _ hd haction hchunk hplace _ hmakes =>
      by_cases hid : q.chunk = id
      · rw [hid, hc] at hd
        cases hd
        have hstored := hmakes.stored
        rw [hchunk, hid] at hstored
        refine ⟨_, hstored, ?_⟩
        by_cases hhold : call.outcome = .hold
        · have hsame : { c with position := call.outcome.next c.actions.length call.place } = c := by
            rw [hhold, hplace]
            rfl
          rw [hsame]
          simpa [callsOf, hhold] using h
        · have hcalls : callsOf id (some call).toList = [call] := by simp [callsOf, hchunk, hid, hhold]
          rw [hcalls]
          exact h.acts haction hplace hhold
      · have hcalls : callsOf id (some call).toList = [] := by simp [callsOf, hchunk, hid]
        rw [hcalls, List.append_nil]
        refine ⟨c, ?_, h⟩
        rcases q.turn_moved situation store scene with hsame | ⟨f, -, hmoved⟩
        · rw [hsame, hc]
        · rw [hmoved, Store.get?_modify_of_ne _ _ (Ne.symm hid), hc]

theorem Reached.playQueue (h : Reached c past) (hc : store.get? id = some c) (situation : Situation)
    (queue : List Queued) (scene : Scene) : ∃ c', (playQueue situation queue store scene).store.get? id = some c' ∧
      Reached c' (past ++ callsOf id (calls situation queue store scene)) := by
  induction queue generalizing store scene c past with
  | nil => exact ⟨c, hc, by simpa [calls, callsOf] using h⟩
  | cons q queue ih =>
      obtain ⟨c₁, hc₁, h₁⟩ := h.turn hc situation q scene
      obtain ⟨c₂, hc₂, h₂⟩ := ih h₁ hc₁ (q.turn situation store scene).scene
      refine ⟨c₂, hc₂, ?_⟩
      rwa [calls, callsOf_append, ← List.append_assoc]

/-! ### Marks of removal -/

namespace Library
variable {l : Library} {ids : List ChunkId} {sig : String}

/-- Finishing marks the signatures of chunks that run once, and no other ones. -/
theorem once_of_foldl_finish (h : (ids.foldl finish l).register.get? sig = some .removed)
    (hbefore : l.register.get? sig ≠ some .removed) :
    ∃ id ∈ ids, ∃ c, l.store.get? id = some c ∧ c.once = true ∧ c.signature = sig := by
  induction ids generalizing l with
  | nil => exact absurd h hbefore
  | cons j ids ih =>
      rw [List.foldl_cons] at h
      by_cases hj : (l.finish j).register.get? sig = some .removed
      · rw [finish_register] at hj
        split at hj
        · next c hc =>
          split at hj
          · next honce =>
            rw [Table.get?_insert] at hj
            split at hj
            · next hsig => exact ⟨j, List.mem_cons_self, c, hc, honce, hsig.symm⟩
            · exact absurd hj hbefore
          · exact absurd hj hbefore
        · exact absurd hj hbefore
      · obtain ⟨id, hid, c', hc', honce, hsig⟩ := ih h hj
        obtain ⟨c, hc, hfresh⟩ := (Plays.finish l j).stored_before hc'
        refine ⟨id, List.mem_cons_of_mem j hid, c, hc, ?_, ?_⟩
        · exact (Chunk.once_of_fresh_eq hfresh).trans honce
        · exact (Chunk.signature_of_fresh_eq hfresh).trans hsig

end Library

namespace Playback
variable {p : Playback} {events : List Event}

/-- In the tick the signature comes to be marked as removed. -/
structure Removes (p : Playback) (situation : Situation) (sig : String) : Prop where
  before : p.library.register.get? sig ≠ some .removed
  after : (p.tick situation).playback.library.register.get? sig = some .removed

/-- The last script of a chunk that runs once leaves the queue in the tick. -/
structure Leaves (p : Playback) (situation : Situation) (id : ChunkId) (c : Chunk) : Prop where
  stored : p.library.store.get? id = some c
  once : c.once = true
  ended : id ∈ p.ended situation

theorem Removes.exists_leaves {sig : String} (h : p.Removes situation sig) :
    ∃ id c, p.Leaves situation id c ∧ c.signature = sig := by
  have hafter := h.after
  rw [tick_library] at hafter
  obtain ⟨id, hid, c', hc', honce, hsig⟩ := Library.once_of_foldl_finish hafter h.before
  obtain ⟨c, hc, hfresh⟩ := (Library.Plays.playQueue p.library situation _ _).stored_before hc'
  exact ⟨id, c, ⟨hc, (Chunk.once_of_fresh_eq hfresh).trans honce, hid⟩,
    (Chunk.signature_of_fresh_eq hfresh).trans hsig⟩

/-! ### Runs -/

/-- Unless its signature is marked, a chunk that runs once stands where the calls have brought it. -/
def Follows (id : ChunkId) (past : List Call) (p : Playback) : Prop :=
  ∀ c, p.library.store.get? id = some c → c.once = true → p.library.register.get? c.signature ≠ some .removed →
    Reached c past

theorem happen_removed {e : Event} {sig : String} (he : p.beat? id e = none)
    (h : p.library.register.get? sig = some .removed) :
    (p.happen e).library.register.get? sig = some .removed := by
  cases e with
  | enqueue j => exact h
  | release j => exact Library.releaseAll_register_of_removed h [j]
  | step s =>
      cases s with
      | interpret candidates previousRoom =>
          rw [happen, perform, interpret_library]
          exact h
      | tick situation => cases he
      | outside vars host => exact h

/-- Between the ticks a chunk is left alone, or it is released. -/
theorem Follows.happen (h : Follows id past p) {e : Event} (he : p.beat? id e = none) :
    Follows id past (p.happen e) := by
  intro c hc honce hslot
  refine h c ?_ honce (mt (happen_removed he) hslot)
  by_cases hkept : e = .release id
  · subst hkept
    rw [Playback.happen, Library.release_store, Store.get?_remove, if_pos rfl] at hc
    cases hc
  · rwa [happen_stored he hkept] at hc

theorem done_beat (p : Playback) (id : ChunkId) (situation : Situation) : done [p.beat id situation] =
    callsOf id (calls situation p.interpreter.queue p.library.store p.openScene) := by
  simp [done, beat, callsOf]

theorem Follows.tick (h : Follows id past p) (situation : Situation) :
    Follows id (past ++ done [p.beat id situation]) (p.tick situation).playback := by
  intro c hc honce hslot
  have hbefore : p.library.register.get? c.signature ≠ some .removed :=
    mt (p.plays_tick situation).removed hslot
  rw [tick_store] at hc
  split at hc
  · next hended =>
    -- A chunk that runs once is retired as it leaves, and the register says so.
    obtain ⟨d, hd, rfl⟩ := Option.map_eq_some_iff.1 hc
    rw [Chunk.once_of_fresh_eq d.finish_fresh] at honce
    rw [Chunk.finish_signature, tick_library] at hslot
    exact absurd (Library.foldl_finish_removed hended hd honce) hslot
  · obtain ⟨c₀, hc₀, hfresh⟩ := (Library.Plays.playQueue p.library situation _ _).stored_before hc
    have hreached := h c₀ hc₀ ((Chunk.once_of_fresh_eq hfresh).trans honce)
      (Chunk.signature_of_fresh_eq hfresh ▸ hbefore)
    obtain ⟨c', hc', hreached'⟩ := hreached.playQueue hc₀ situation p.interpreter.queue p.openScene
    cases hc.symm.trans hc'
    rwa [done_beat]

theorem Follows.run (h : Follows id past p) (events : List Event) :
    Follows id (past ++ done (log id events p)) (events.foldl Playback.happen p) := by
  induction events generalizing p past with
  | nil => simpa [log, done] using h
  | cons e events ih =>
      rw [log, List.foldl_cons]
      cases he : p.beat? id e with
      | none => exact ih (h.happen he)
      | some b =>
          obtain ⟨situation, rfl, rfl⟩ := exists_tick_of_beat? he
          have hdone : done (p.beat id situation :: log id events (p.tick situation).playback) =
              done [p.beat id situation] ++ done (log id events (p.tick situation).playback) := by
            simp [done]
          have hrun := ih (h.tick situation)
          rwa [List.append_assoc, ← hdone] at hrun

/-- A chunk whose last script leaves stands at its end. -/
theorem length_le_of_ended (h : id ∈ p.ended situation) (hc : (p.round situation).store.get? id = some c) :
    c.actions.length ≤ c.position := by
  obtain ⟨q, hq, rfl⟩ := List.mem_map.1 (Library.mem_ended_iff.1 h).1
  have hdone := (List.mem_filter.1 hq).2
  simp only [Queued.isDone, hc, Option.all_some, Chunk.isFinished, Bool.and_eq_true, decide_eq_true_eq] at hdone
  exact hdone.2

theorem log_concat_tick (events : List Event) (situation : Situation) (p : Playback) :
    log id (events ++ [.step (.tick situation)]) p =
      log id events p ++ [(events.foldl Playback.happen p).beat id situation] := by
  induction events generalizing p with
  | nil => rfl
  | cons e events ih => rw [List.cons_append, log, log, ih, List.append_assoc, List.foldl_cons]

theorem Follows.completed_iff (h : Follows id past p) {situation : Situation} (hleaves : p.Leaves situation id c)
    (hslot : p.library.register.get? c.signature ≠ some .removed) {log : List Beat}
    (hlog : done log = past ++ done [p.beat id situation]) : Completed c log ↔ ¬Stopped log := by
  obtain ⟨c', hc', hreached⟩ :=
    (h c hleaves.stored hleaves.once hslot).playQueue hleaves.stored situation p.interpreter.queue p.openScene
  obtain ⟨c₀, hc₀, hfresh⟩ := (Library.Plays.playQueue p.library situation _ _).stored_before hc'
  cases hc₀.symm.trans hleaves.stored
  rw [← done_beat, ← hlog] at hreached
  have hiff := hreached.completes_iff (length_le_of_ended hleaves.ended hc')
  rwa [← Chunk.actions_of_fresh_eq hfresh] at hiff

/-- A signature comes to be marked as removed on account of a chunk that runs once and whose last script leaves
the queue. That chunk has performed all of its actions just if none of them stopped it. -/
theorem completed_iff_of_removes (hfresh : ∀ id c, p.library.store.get? id = some c → c.fresh = c)
    (events : List Event) (situation : Situation) {sig : String}
    (h : (events.foldl happen p).Removes situation sig) :
    let p' := events.foldl happen p
    let shown := fun id => log id (events ++ [.step (.tick situation)]) p
    (∃ id c, p'.Leaves situation id c ∧ c.signature = sig) ∧
      ∀ id c, p'.Leaves situation id c → c.signature = sig → (Completed c (shown id) ↔ ¬Stopped (shown id)) := by
  intro p' shown
  refine ⟨h.exists_leaves, fun id c hleaves hsig => ?_⟩
  have hstart : Follows id [] p := fun d hd _ _ => reached_of_fresh (hfresh id d hd)
  refine (hstart.run events).completed_iff hleaves (hsig ▸ h.before) ?_
  rw [List.nil_append, show shown id = _ from log_concat_tick events situation p]
  simp [done]

/-- Two scripts that run once: one that shows two cursors, and one for actors from another room. -/
def blinking : Chunk :=
  { Chunk.ofParts "0100.rom:2" [""] [.ofKeyword "Cursor" "on", .ofKeyword "Cursor" "off"] with once := true }

def welcome : Chunk :=
  { Chunk.ofParts "0100.rom:7" [""] [.ofKeyword "IfFrom" "99 1 2", .ofKeyword "Cursor" "door"] with once := true }

def foyer : Playback :=
  ofChunks [blinking, welcome] [] (.ofSeed 0 10) .empty (Host.silent false)

def arriving : Situation :=
  ⟨⟨100, 98⟩, false⟩

theorem fresh_foyer (id : ChunkId) (c : Chunk) (hc : foyer.library.store.get? id = some c) : c.fresh = c := by
  have hslots : ∀ slot ∈ foyer.library.store.slots, ∀ c ∈ slot.chunk, c.fresh = c := by decide +kernel
  exact hslots _ (List.mem_of_getElem? (Store.get?_eq_some_iff.1 hc)) c rfl

theorem completed_iff_of_removes_blinking :
    let events : List Event := [.step (.interpret [⟨0, 0⟩] 98), .step (.tick arriving)]
    let p' := events.foldl happen foyer
    let shown := log ⟨0, 0⟩ (events ++ [.step (.tick arriving)]) foyer
    p'.Removes arriving "0100.rom:2" ∧ p'.Leaves arriving ⟨0, 0⟩ { blinking with position := 1 } ∧
      ¬Stopped shown ∧ Completed { blinking with position := 1 } shown := by
  intro events p' shown
  have hremoves : p'.Removes arriving "0100.rom:2" := ⟨by decide +kernel, by decide +kernel⟩
  have hleaves : p'.Leaves arriving ⟨0, 0⟩ { blinking with position := 1 } :=
    ⟨by decide +kernel, rfl, by decide +kernel⟩
  have hgoing : ¬Stopped shown := by decide +kernel
  refine ⟨hremoves, hleaves, hgoing, ?_⟩
  exact ((completed_iff_of_removes fresh_foyer events arriving hremoves).2 _ _ hleaves rfl).2 hgoing

/-- An actor who has come from another room than the one asked for is not welcomed, now or ever after. -/
theorem welcome_removed_not_completed :
    ¬∀ (p : Playback) (events : List Event) (situation : Situation) (sig : String) (id : ChunkId) (c : Chunk),
      (∀ id c, p.library.store.get? id = some c → c.fresh = c) →
      (events.foldl happen p).Removes situation sig → (events.foldl happen p).Leaves situation id c →
      c.signature = sig → Completed c (log id (events ++ [.step (.tick situation)]) p) := by
  intro h
  have hcompleted := h foyer [.step (.interpret [⟨1, 0⟩] 98)] arriving "0100.rom:7" ⟨1, 0⟩ welcome fresh_foyer
    ⟨by decide +kernel, by decide +kernel⟩ ⟨by decide +kernel, rfl, by decide +kernel⟩ rfl
  revert hcompleted
  decide +kernel

end Playback
end Adventure.Script
