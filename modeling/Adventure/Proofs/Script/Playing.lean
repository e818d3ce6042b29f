import Adventure.Proofs.Script.Lines
/-! What a tick does to the chunks. The turns move the chunks of the queue and nothing else; at the end
the chunks whose last script is done are retired or rewound. -/
namespace Adventure.Script

variable {situation : Situation} {q : Queued} {store : Store} {scene : Scene}

/-! ### Turns -/

/-- The store after a turn: as before, or with the script's chunk moved. -/
def Store.Moved (store store' : Store) (id : ChunkId) : Prop :=
  store' = store ∨ ∃ f, Chunk.IsMove f ∧ store' = store.modify id f

theorem Queued.act_chunk (situation : Situation) (q : Queued) (store : Store) (scene : Scene)
    (changed : Bool) : (q.act situation store scene changed).script.chunk = q.chunk := by
  unfold Queued.act
  split
  · rfl
  · split <;> rfl

theorem Queued.act_moved (situation : Situation) (q : Queued) (store : Store) (scene : Scene)
    (changed : Bool) : store.Moved (q.act situation store scene changed).store q.chunk := by
  unfold Queued.act
  split
  · exact .inl rfl
  · split
    · exact .inr ⟨_, .advance, rfl⟩
    · exact .inr ⟨_, .skipToEnd, rfl⟩
    · exact .inr ⟨_, .skipToEnd, rfl⟩
    · exact .inr ⟨_, .advance, rfl⟩
    · exact .inl rfl

theorem Queued.turn_chunk (situation : Situation) (q : Queued) (store : Store) (scene : Scene) :
    (q.turn situation store scene).script.chunk = q.chunk := by
  unfold Queued.turn
  split
  · exact Queued.act_chunk situation q store scene false
  · split
    · rfl
    · exact Queued.act_chunk situation { q with wait := .none } store scene true

theorem Queued.turn_moved (situation : Situation) (q : Queued) (store : Store) (scene : Scene) :
    store.Moved (q.turn situation store scene).store q.chunk := by
  unfold Queued.turn
  split
  · exact Queued.act_moved situation q store scene false
  · split
    · exact .inl rfl
    · exact Queued.act_moved situation { q with wait := .none } store scene true

/-! ### Rounds -/

theorem playQueue_chunks (situation : Situation) (queue : List Queued) (store : Store) (scene : Scene) :
    (playQueue situation queue store scene).queue.map Queued.chunk = queue.map Queued.chunk := by
  induction queue generalizing store scene with
  | nil => rfl
  | cons q queue ih =>
      simp only [playQueue, List.map_cons, ih, Queued.turn_chunk]

namespace Library
variable {l : Library} {defs : List Chunk} {ids : List ChunkId} {id : ChunkId} {c : Chunk} {sig : String}

/-- What no move of a queued chunk breaks holds after a round. -/
theorem playQueue_induction (P : Library → Prop) (l : Library) (queue : List Queued) (scene : Scene)
    (hmove : ∀ {l q f}, q ∈ queue → Chunk.IsMove f → P l → P (l.move q.chunk f)) (h : P l) :
    P { l with store := (playQueue situation queue l.store scene).store } := by
  induction queue generalizing l scene with
  | nil => exact h
  | cons q queue ih =>
      refine ih ⟨(q.turn situation l.store scene).store, l.register⟩ _
        (fun hq hf => hmove (List.mem_cons_of_mem q hq) hf) ?_
      rcases q.turn_moved situation l.store scene with hsame | ⟨f, hf, hmoved⟩
      · rwa [hsame]
      · rw [hmoved]
        exact hmove List.mem_cons_self hf h

theorem Sound.playQueue (h : l.Sound defs) (situation : Situation) (queue : List Queued) (scene : Scene) :
    Sound { l with store := (playQueue situation queue l.store scene).store } defs :=
  playQueue_induction (·.Sound defs) l queue scene (fun _ hf hl => hl.move _ hf) h

theorem Plays.playQueue (l : Library) (situation : Situation) (queue : List Queued) (scene : Scene) :
    Plays l { l with store := (playQueue situation queue l.store scene).store } :=
  playQueue_induction (Plays l ·) l queue scene (fun _ hf hl => hl.trans (.move _ _ hf)) (.refl l)

theorem playQueue_retired (l : Library) (situation : Situation) (queue : List Queued) (scene : Scene)
    (id : ChunkId) : ((playQueue situation queue l.store scene).store.get? id).map Chunk.retired =
      (l.store.get? id).map Chunk.retired := by
  refine playQueue_induction (fun l' => (l'.store.get? id).map Chunk.retired =
    (l.store.get? id).map Chunk.retired) l queue scene (fun {l' q f} _ hf hl => ?_) rfl
  rw [Library.move, Store.get?_modify, ← hl]
  split
  · next hid => subst hid; cases l'.store.get? q.chunk <;> simp [hf.retired]
  · rfl

theorem playQueue_get?_of_not_mem (l : Library) {queue : List Queued} (h : id ∉ queue.map Queued.chunk) :
    (playQueue situation queue l.store scene).store.get? id = l.store.get? id := by
  refine playQueue_induction (fun l' => l'.store.get? id = l.store.get? id) l queue scene
    (fun {l' q f} hq _ hl => ?_) rfl
  have hne : id ≠ q.chunk := fun heq => h (heq ▸ List.mem_map_of_mem hq)
  rw [Library.move, Store.get?_modify, if_neg hne, hl]

/-! ### Finishing -/

theorem foldl_finish_induction (P : Library → Prop) (l : Library) (ids : List ChunkId)
    (hfinish : ∀ {l id}, id ∈ ids → P l → P (l.finish id)) (h : P l) : P (ids.foldl finish l) := by
  induction ids generalizing l with
  | nil => exact h
  | cons id ids ih =>
      exact ih _ (fun hid => hfinish (List.mem_cons_of_mem id hid)) (hfinish List.mem_cons_self h)

theorem foldl_finish_store (l : Library) (ids : List ChunkId) (id : ChunkId) :
    (ids.foldl finish l).store.get? id =
      if id ∈ ids then (l.store.get? id).map Chunk.finish else l.store.get? id := by
  induction ids generalizing l with
  | nil => rfl
  | cons j ids ih =>
      rw [List.foldl_cons, ih, finish_store, Store.get?_modify]
      by_cases hj : id = j
      · subst hj
        have htwice : Chunk.finish ∘ Chunk.finish = Chunk.finish := funext Chunk.finish_finish
        simp [htwice]
      · simp [hj]

/-- The chunks that are finished at the end of a round. -/
def ended (remaining done : List Queued) : List ChunkId :=
  (done.filter fun q => !remaining.any (·.chunk == q.chunk)).map Queued.chunk

theorem finishAll_eq (l : Library) (remaining done : List Queued) :
    l.finishAll remaining done = (ended remaining done).foldl finish l := by
  rw [finishAll, ended, List.foldl_map]

theorem mem_ended_iff {remaining done : List Queued} :
    id ∈ ended remaining done ↔ id ∈ done.map Queued.chunk ∧ id ∉ remaining.map Queued.chunk := by
  simp only [ended, List.mem_map, List.mem_filter, Bool.not_eq_eq_eq_not, Bool.not_true,
    List.any_eq_false, beq_iff_eq]
  constructor
  · rintro ⟨q, ⟨hq, hnot⟩, rfl⟩
    exact ⟨⟨q, hq, rfl⟩, fun ⟨r, hr, heq⟩ => hnot r hr heq⟩
  · rintro ⟨⟨q, hq, rfl⟩, hnot⟩
    exact ⟨q, ⟨hq, fun r hr heq => hnot ⟨r, hr, heq⟩⟩, rfl⟩

/-! ### Signatures after playing -/

theorem Plays.live?_iff {l' : Library} (h : l.Sound defs) (h' : l'.Sound defs) (hp : Plays l l') :
    l'.live? sig = some id ↔ l.live? sig = some id ∧ ∃ c, l'.store.get? id = some c ∧ c.retired = false := by
  rw [live?_eq_some_iff, live?_eq_some_iff]
  constructor
  · intro hlive
    obtain ⟨c, hc, -, hr⟩ := h'.stored_of_live hlive
    refine ⟨?_, c, hc, hr⟩
    rcases hp.slots sig with heq | hrem
    · exact heq ▸ hlive
    · rw [hrem] at hlive
      cases hlive
  · rintro ⟨hlive, c, hc, hr⟩
    obtain ⟨c₀, hc₀, hsig⟩ := h.live hlive
    obtain ⟨c', hc', hfresh⟩ := hp.stored hc₀
    cases hc.symm.trans hc'
    rw [← hsig, ← Chunk.signature_of_fresh_eq hfresh]
    exact h'.live_of_stored hc hr

theorem Plays.chunk?_eq {l' : Library} (h : l.Sound defs) (h' : l'.Sound defs) (hp : Plays l l')
    (sig : String) :
    l'.chunk? sig = (l.live? sig).bind fun id => (l'.store.get? id).filter (!·.retired) := by
  ext c
  simp only [chunk?, Option.bind_eq_some_iff, hp.live?_iff h h', Option.filter_eq_some_iff,
    Bool.not_eq_eq_eq_not, Bool.not_true]
  constructor
  · rintro ⟨id, ⟨hlive, c', hc', hr⟩, hc⟩
    cases hc.symm.trans hc'
    exact ⟨id, hlive, hc, hr⟩
  · rintro ⟨id, hlive, hc, hr⟩
    exact ⟨id, ⟨hlive, c, hc, hr⟩, hc⟩

end Library

/-! ### Ticks -/

namespace Playback
variable {p : Playback} {defs : List Chunk} {ids : List ChunkId} {id : ChunkId} {c : Chunk}

def round (p : Playback) (situation : Situation) : Round :=
  playQueue situation p.interpreter.queue p.library.store p.openScene

theorem tick_queue (p : Playback) (situation : Situation) :
    (p.tick situation).playback.interpreter.queue =
      (p.round situation).queue.filter (!·.isDone (p.round situation).store) := rfl

theorem tick_changed (p : Playback) (situation : Situation) : (p.tick situation).changed =
    ((p.interpreter.bindings.any fun b => !p.host.isSoundPlaying b.id) || (p.round situation).changed ||
      !((p.round situation).queue.filter (·.isDone (p.round situation).store)).isEmpty) := rfl

/-- The chunks that a tick finishes. -/
def ended (p : Playback) (situation : Situation) : List ChunkId :=
  Library.ended ((p.round situation).queue.filter (!·.isDone (p.round situation).store))
    ((p.round situation).queue.filter (·.isDone (p.round situation).store))

theorem tick_library (p : Playback) (situation : Situation) :
    (p.tick situation).playback.library =
      (p.ended situation).foldl Library.finish { p.library with store := (p.round situation).store } :=
  Library.finishAll_eq _ _ _

theorem tick_queue_sublist (p : Playback) (situation : Situation) :
    ((p.tick situation).playback.interpreter.queue.map Queued.chunk).Sublist
      (p.interpreter.queue.map Queued.chunk) := by
  rw [← playQueue_chunks situation p.interpreter.queue p.library.store p.openScene]
  exact List.filter_sublist.map _

theorem mem_ended_iff {situation : Situation} : id ∈ p.ended situation ↔
    id ∈ p.interpreter.queue.map Queued.chunk ∧
      id ∉ (p.tick situation).playback.interpreter.queue.map Queued.chunk := by
  rw [ended, Library.mem_ended_iff, tick_queue]
  refine and_congr_left fun hnot => ?_
  rw [← playQueue_chunks situation p.interpreter.queue p.library.store p.openScene]
  simp only [List.mem_map, List.mem_filter]
  constructor
  · rintro ⟨q, ⟨hq, -⟩, rfl⟩
    exact ⟨q, hq, rfl⟩
  · rintro ⟨q, hq, rfl⟩
    refine ⟨q, ⟨hq, ?_⟩, rfl⟩
    by_contra hdone
    exact hnot (List.mem_map_of_mem (List.mem_filter.2 ⟨hq, by simpa using hdone⟩))

theorem tick_store (p : Playback) (situation : Situation) (id : ChunkId) :
    (p.tick situation).playback.library.store.get? id =
      if id ∈ p.ended situation then ((p.round situation).store.get? id).map Chunk.finish
      else (p.round situation).store.get? id := by
  rw [tick_library, Library.foldl_finish_store]

theorem store_sound_tick (h : p.library.store.Sound) (situation : Situation) :
    (p.tick situation).playback.library.store.Sound := by
  rw [tick_library]
  refine Library.foldl_finish_induction (·.store.Sound) _ _ (fun _ hl => ?_) ?_
  · exact Library.finish_store _ _ ▸ hl.modify _ _
  · exact Library.playQueue_induction (·.store.Sound) p.library _ _ (fun _ _ hl => hl.modify _ _) h

theorem sound_tick (h : p.library.Sound defs) (situation : Situation) :
    (p.tick situation).playback.library.Sound defs := by
  rw [tick_library]
  exact Library.foldl_finish_induction (·.Sound defs) _ _ (fun _ hl => hl.finish _)
    (h.playQueue situation _ _)

theorem plays_tick (p : Playback) (situation : Situation) :
    p.library.Plays (p.tick situation).playback.library := by
  rw [tick_library]
  exact Library.foldl_finish_induction (Library.Plays p.library ·) _ _
    (fun _ hl => hl.trans (.finish _ _)) (.playQueue p.library situation _ _)

theorem tick_get?_of_not_mem {situation : Situation} (h : id ∉ p.interpreter.queue.map Queued.chunk) :
    (p.tick situation).playback.library.store.get? id = p.library.store.get? id := by
  rw [tick_store, if_neg fun hended => h (mem_ended_iff.1 hended).1]
  exact Library.playQueue_get?_of_not_mem p.library h

theorem live?_tick {situation : Situation} {sig : String} (h : p.library.Sound defs)
    (hlive : p.library.live? sig = some id) (hended : id ∉ p.ended situation) :
    (p.tick situation).playback.library.live? sig = some id := by
  refine ((plays_tick p situation).live?_iff h (sound_tick h situation)).2 ⟨hlive, ?_⟩
  obtain ⟨c, hc, -, hr⟩ := h.stored_of_live (Library.live?_eq_some_iff.1 hlive)
  have hretired := Library.playQueue_retired p.library situation p.interpreter.queue p.openScene id
  rw [← round, hc, Option.map_some, hr, Option.map_eq_some_iff] at hretired
  obtain ⟨c', hc', hr'⟩ := hretired
  exact ⟨c', by rw [tick_store, if_neg hended, hc'], hr'⟩

/-! ### Choosing a script -/

theorem interpret_library (p : Playback) (candidates : List ChunkId) (previous : UInt16) :
    (p.interpret candidates previous).2.library = p.library := by
  unfold interpret
  dsimp only
  split <;> rfl

theorem interpret_vars (p : Playback) (candidates : List ChunkId) (previous : UInt16) :
    (p.interpret candidates previous).2.vars = (p.vars.reroll p.interpreter.dice).1 := by
  unfold interpret
  dsimp only
  split <;> rfl

theorem interpret_queue (p : Playback) (candidates : List ChunkId) (previous : UInt16) :
    (p.interpret candidates previous).2.interpreter.queue =
      p.interpreter.queue ++ (p.interpret candidates previous).1.toList.map .fresh := by
  unfold interpret
  dsimp only
  split
  · rfl
  · exact (List.append_nil _).symm

theorem candidate_of_interpret {candidates : List ChunkId} {previous : UInt16}
    (h : (p.interpret candidates previous).1 = some id) : id ∈ candidates ∧
      ∃ c, p.library.store.get? id = some c ∧
        c.isCandidate (p.vars.reroll p.interpreter.dice).1 previous = true := by
  unfold interpret at h
  dsimp only at h
  split at h
  · next hfind =>
    cases h
    have hmay := List.find?_some hfind
    rw [Option.any_eq_true] at hmay
    obtain ⟨c, hc, hcand⟩ := hmay
    exact ⟨List.mem_of_find?_eq_some hfind, c, hc, hcand⟩
  · cases h

/-! ### Scripts that may go on -/

/-- No queued script runs a retired chunk. -/
def Ready (p : Playback) : Prop :=
  ∀ q ∈ p.interpreter.queue, ∀ c, p.library.store.get? q.chunk = some c → c.retired = false

theorem Ready.tick (h : p.Ready) (situation : Situation) : (p.tick situation).playback.Ready := by
  intro q hq c hc
  have hmem : q.chunk ∈ (p.tick situation).playback.interpreter.queue.map Queued.chunk :=
    List.mem_map_of_mem hq
  -- The chunk of a script that stays is not finished, and the round has not retired it.
  rw [tick_store, if_neg fun hended => (mem_ended_iff.1 hended).2 hmem] at hc
  have hretired := Library.playQueue_retired p.library situation p.interpreter.queue p.openScene q.chunk
  rw [← round, hc] at hretired
  obtain ⟨q₀, hq₀, heq⟩ := List.mem_map.1 ((p.tick_queue_sublist situation).subset hmem)
  cases hc₀ : p.library.store.get? q.chunk with
  | none => rw [hc₀] at hretired; cases hretired
  | some c₀ =>
      rw [hc₀] at hretired
      exact (Option.some.inj hretired).trans (h q₀ hq₀ c₀ (heq ▸ hc₀))

theorem retired_of_isCandidate {vars : Variables} {previous : UInt16}
    (h : c.isCandidate vars previous = true) : c.retired = false := by
  simp only [Chunk.isCandidate, Bool.and_eq_true, Bool.not_eq_eq_eq_not, Bool.not_true] at h
  exact h.1.1.1

theorem Ready.interpret (h : p.Ready) (candidates : List ChunkId) (previous : UInt16) :
    (p.interpret candidates previous).2.Ready := by
  intro q hq c hc
  rw [interpret_library] at hc
  rw [interpret_queue, List.mem_append] at hq
  rcases hq with hq | hq
  · exact h q hq c hc
  · obtain ⟨id, hid, rfl⟩ := List.mem_map.1 hq
    obtain ⟨-, c', hc', hcand⟩ := candidate_of_interpret (Option.mem_toList.1 hid)
    cases hc.symm.trans hc'
    exact retired_of_isCandidate hcand

end Playback
end Adventure.Script
