import Adventure.Proofs.Script.Lapses
/-! A script does not get in the way of the others. One that is held back, holds, stops or has nothing left to
do takes its turn unseen: had it not been queued at all, the tick would come to the same, but for the script
itself and its chunk. -/
namespace Adventure.Script

variable {situation : Situation} {q : Queued} {store store' : Store} {scene : Scene} {id : ChunkId}

/-! ### Actions that do not complete -/

/-- Only an action that is done changes anything. -/
theorem Action.perform_unseen {a : Action} {s : Scene} (h : ¬(a.perform situation s).1.Completes) :
    (a.perform situation s).2 = s :=
  (a.ends_perform situation s).scene_eq h

/-- In its turn the script does nothing that another one could see. -/
inductive Queued.Stalls (situation : Situation) (q : Queued) (store : Store) (scene : Scene) : Prop where
  | held (hback : q.wait.isPending situation scene.host = true)
  | lost (hlost : store.get? q.chunk = none)
  | spent {c : Chunk} (hc : store.get? q.chunk = some c) (hspent : c.currentAction? = none)
  | holds {call : Call} (hcall : q.call? situation store scene = some call) (hholds : call.outcome = .hold)
  | stops {call : Call} (hcall : q.call? situation store scene = some call) (hstops : call.outcome.Stops)

theorem Queued.Stalls.not_completes {call : Call} (h : q.Stalls situation store scene)
    (hcall : q.call? situation store scene = some call) : ¬call.outcome.Completes := by
  cases h with
  | held hback =>
      rw [call?, if_pos hback] at hcall
      cases hcall
  | lost hlost => simp [call?, hlost] at hcall
  | spent hc hspent => simp [call?, hc, hspent] at hcall
  | holds hcall' hholds =>
      cases hcall.symm.trans hcall'
      rw [hholds]
      exact not_false
  | stops hcall' hstops =>
      cases hcall.symm.trans hcall'
      rcases hstops with hstop | hinvalid
      · rw [hstop]
        exact not_false
      · rw [hinvalid]
        exact not_false

theorem Queued.Stalls.scene_eq (h : q.Stalls situation store scene) :
    (q.turn situation store scene).scene = scene := by
  have hturn := q.turn_takes situation store scene
  cases hcall : q.call? situation store scene with
  | none =>
      rw [hcall] at hturn
      cases hturn with
      | held _ hidle => exact hidle.scene_eq
      | spent _ _ hidle => exact hidle.scene_eq
  | some call =>
      rw [hcall] at hturn
      cases hturn with
      | calls _ _ _ _ _ _ hmakes =>
          rw [hmakes.scene]
          exact Action.perform_unseen (outcome_of_call? hcall ▸ h.not_completes hcall)

/-! ### Rounds without a chunk -/

/-- The stores hold the same chunks, but perhaps for one handle. -/
def Store.SameBut (id : ChunkId) (s t : Store) : Prop :=
  ∀ j ≠ id, s.get? j = t.get? j

theorem Store.SameBut.refl (id : ChunkId) (s : Store) : s.SameBut id s :=
  fun _ _ => rfl

theorem Store.SameBut.modify {s t : Store} (h : s.SameBut id t) {j : ChunkId} (hne : j ≠ id)
    (f : Chunk → Chunk) : (s.modify j f).SameBut id (t.modify j f) := by
  intro k hk
  rw [get?_modify, get?_modify, h j hne, h k hk]

theorem Store.Moved.sameBut {s t : Store} (h : s.Moved t id) : t.SameBut id s := by
  intro j hj
  rcases h with rfl | ⟨f, -, rfl⟩
  · rfl
  · exact get?_modify_of_ne s f hj

/-- The scripts that run other chunks. -/
def others (id : ChunkId) (queue : List Queued) : List Queued :=
  queue.filter (·.chunk ≠ id)

theorem others_append (id : ChunkId) (queue queue' : List Queued) :
    others id (queue ++ queue') = others id queue ++ others id queue' :=
  List.filter_append ..

theorem others_cons (id : ChunkId) (q : Queued) (queue : List Queued) :
    others id (q :: queue) = if q.chunk = id then others id queue else q :: others id queue := by
  by_cases h : q.chunk = id <;> simp [others, h]

theorem others_filter (id : ChunkId) (queue : List Queued) (keep : Queued → Bool) :
    others id (queue.filter keep) = (others id queue).filter keep := by
  rw [others, List.filter_comm, ← others]

theorem others_eq_self {queue : List Queued} (h : id ∉ queue.map Queued.chunk) : others id queue = queue := by
  apply List.filter_eq_self.2
  intro q hq
  exact decide_eq_true fun heq => h (heq ▸ List.mem_map_of_mem hq)

theorem Alone.others_eq {before after : List Queued} (h : Alone id q before after) :
    others id (before ++ q :: after) = before ++ after := by
  rw [others_append, others_cons, if_pos h.chunk, others_eq_self h.before, others_eq_self h.after]

structure Turn.SameBut (id : ChunkId) (t t' : Turn) : Prop where
  script : t.script = t'.script
  store : t.store.SameBut id t'.store
  scene : t.scene = t'.scene

structure Round.SameBut (id : ChunkId) (r r' : Round) : Prop where
  queue : others id r.queue = others id r'.queue
  store : r.store.SameBut id r'.store
  scene : r.scene = r'.scene

theorem Queued.act_sameBut (h : store.SameBut id store') (hne : q.chunk ≠ id) (situation : Situation)
    (scene : Scene) (changed : Bool) :
    (q.act situation store scene changed).SameBut id (q.act situation store' scene changed) := by
  unfold act
  rw [h q.chunk hne]
  split
  · exact ⟨rfl, h, rfl⟩
  · split
    · exact ⟨rfl, h.modify hne _, rfl⟩
    · exact ⟨rfl, h.modify hne _, rfl⟩
    · exact ⟨rfl, h.modify hne _, rfl⟩
    · exact ⟨rfl, h.modify hne _, rfl⟩
    · exact ⟨rfl, h, rfl⟩

/-- A script does not see the chunks of others. -/
theorem Queued.turn_sameBut (h : store.SameBut id store') (hne : q.chunk ≠ id) (situation : Situation)
    (scene : Scene) : (q.turn situation store scene).SameBut id (q.turn situation store' scene) := by
  unfold turn
  split
  · exact act_sameBut h hne situation scene false
  · split
    · exact ⟨rfl, h, rfl⟩
    · exact act_sameBut (q := { q with wait := .none }) h hne situation scene true

theorem playQueue_sameBut {queue : List Queued} (hid : id ∉ queue.map Queued.chunk)
    (h : store.SameBut id store') (situation : Situation) (scene : Scene) :
    (playQueue situation queue store scene).SameBut id (playQueue situation queue store' scene) := by
  induction queue generalizing store store' scene with
  | nil => exact ⟨rfl, h, rfl⟩
  | cons q queue ih =>
      rw [List.map_cons, List.mem_cons, not_or] at hid
      have hturn := q.turn_sameBut h (Ne.symm hid.1) situation scene
      have hround := ih hid.2 hturn.store (q.turn situation store scene).scene
      rw [playQueue, playQueue, ← hturn.scene, ← hturn.script]
      refine ⟨?_, hround.store, hround.scene⟩
      rw [others_cons, others_cons, hround.queue]

/-- A stalled script leaves the round to the others. -/
theorem Queued.Stalls.round {before after : List Queued} (halone : Alone id q before after)
    (h : q.Stalls situation (playQueue situation before store scene).store
      (playQueue situation before store scene).scene) :
    (playQueue situation (before ++ q :: after) store scene).SameBut id
      (playQueue situation (before ++ after) store scene) := by
  obtain ⟨hqueue, hstore⟩ := playQueue_append situation before (q :: after) store scene
  obtain ⟨hqueue', hstore'⟩ := playQueue_append situation before after store scene
  have hscene := scene_playQueue_append situation before (q :: after) store scene
  have hscene' := scene_playQueue_append situation before after store scene
  generalize playQueue situation before store scene = first at *
  have hmoved := (q.turn_moved situation first.store first.scene).sameBut
  rw [halone.chunk] at hmoved
  have hrest := playQueue_sameBut halone.after hmoved situation first.scene
  rw [playQueue, h.scene_eq] at hqueue hstore hscene
  constructor
  · have hchunk := (q.turn_chunk situation first.store first.scene).trans halone.chunk
    rw [hqueue, hqueue', others_append, others_append, others_cons, if_pos hchunk, hrest.queue]
  · rw [hstore, hstore']
    exact hrest.store
  · rw [hscene, hscene']
    exact hrest.scene

/-! ### Finishing without a chunk -/

namespace Library
variable {l l' : Library} {ids ids' : List ChunkId} {sig : String}

/-- Finishing marks the signatures of chunks that run once. -/
theorem foldl_finish_removed_iff : (ids.foldl finish l).register.get? sig = some .removed ↔
    l.register.get? sig = some .removed ∨
      ∃ id ∈ ids, ∃ c, l.store.get? id = some c ∧ c.once = true ∧ c.signature = sig := by
  constructor
  · intro h
    by_cases hbefore : l.register.get? sig = some .removed
    · exact .inl hbefore
    · exact .inr (once_of_foldl_finish h hbefore)
  · rintro (h | ⟨id, hid, c, hc, honce, rfl⟩)
    · exact (foldl_finish_induction (Plays l ·) l ids (fun _ hl => hl.trans (.finish _ _)) (.refl l)).removed h
    · exact foldl_finish_removed hid hc honce

end Library

/-! ### Ticks without a script -/

theorem Queued.isDone_sameBut (h : store.SameBut id store') (hne : q.chunk ≠ id) :
    q.isDone store = q.isDone store' := by
  rw [isDone, isDone, h q.chunk hne]

namespace Playback
variable {p : Playback} {before after : List Queued}

/-- The playback with other scripts in its queue. -/
def withQueue (p : Playback) (queue : List Queued) : Playback :=
  { p with interpreter := { p.interpreter with queue } }

/-- Two ticks that come to the same but for one chunk, its scripts and its signature. The second one has no
such scripts. -/
structure Tick.SameBut (id : ChunkId) (signature? : Option String) (t t' : Tick) : Prop where
  vars : t.playback.vars = t'.playback.vars
  host : t.playback.host = t'.playback.host
  requests : t.requests = t'.requests
  bindings : t.playback.interpreter.bindings = t'.playback.interpreter.bindings
  queue : others id t.playback.interpreter.queue = t'.playback.interpreter.queue
  chunks : ∀ j ≠ id, t.playback.library.store.get? j = t'.playback.library.store.get? j
  slots : ∀ signature, signature? ≠ some signature →
    t.playback.library.register.get? signature = t'.playback.library.register.get? signature

variable {p' : Playback}

/-- Rounds that come to the same are followed by the same. -/
theorem queue_sameBut (h : (p.round situation).SameBut id (p'.round situation)) :
    others id (p.tick situation).playback.interpreter.queue =
      others id (p'.tick situation).playback.interpreter.queue := by
  rw [tick_queue, tick_queue, others_filter, others_filter, ← h.queue]
  apply List.filter_congr
  intro q hq
  have hne : q.chunk ≠ id := of_decide_eq_true (List.mem_filter.1 hq).2
  rw [q.isDone_sameBut h.store hne]

/-- Other chunks are queued by the same scripts. -/
theorem mem_chunks_iff_of_others_eq {queue queue' : List Queued} {j : ChunkId} (hne : j ≠ id)
    (h : others id queue = others id queue') : j ∈ queue.map Queued.chunk ↔ j ∈ queue'.map Queued.chunk := by
  have hmem : ∀ queue : List Queued, j ∈ queue.map Queued.chunk ↔ j ∈ (others id queue).map Queued.chunk := by
    intro queue
    simp only [others, List.mem_map, List.mem_filter, decide_eq_true_eq]
    constructor
    · rintro ⟨q, hq, rfl⟩
      exact ⟨q, ⟨hq, hne⟩, rfl⟩
    · rintro ⟨q, ⟨hq, -⟩, rfl⟩
      exact ⟨q, hq, rfl⟩
  rw [hmem queue, hmem queue', h]

theorem mem_ended_iff_of_sameBut {j : ChunkId} (hne : j ≠ id)
    (hqueue : others id p.interpreter.queue = others id p'.interpreter.queue)
    (h : (p.round situation).SameBut id (p'.round situation)) :
    j ∈ p.ended situation ↔ j ∈ p'.ended situation := by
  rw [mem_ended_iff, mem_ended_iff, mem_chunks_iff_of_others_eq hne hqueue,
    mem_chunks_iff_of_others_eq hne (queue_sameBut h)]

theorem chunks_sameBut (hqueue : others id p.interpreter.queue = others id p'.interpreter.queue)
    (h : (p.round situation).SameBut id (p'.round situation)) :
    (p.tick situation).playback.library.store.SameBut id (p'.tick situation).playback.library.store := by
  intro j hj
  rw [tick_store, tick_store, h.store j hj]
  simp only [mem_ended_iff_of_sameBut hj hqueue h]

/-- The chunk itself is the only one whose signature may be marked in one tick and not in the other. -/
theorem removed_iff_of_sameBut (hqueue : others id p.interpreter.queue = others id p'.interpreter.queue)
    (hlibrary : p'.library = p.library) (h : (p.round situation).SameBut id (p'.round situation))
    {signature : String} (hsig : (p.library.store.get? id).map Chunk.signature ≠ some signature) :
    (p.tick situation).playback.library.register.get? signature = some .removed ↔
      (p'.tick situation).playback.library.register.get? signature = some .removed := by
  have hkept : ∀ p' : Playback, p'.library = p.library → ∀ c, (p'.round situation).store.get? id = some c →
      c.signature ≠ signature := by
    rintro p' hlibrary c hc rfl
    obtain ⟨c₀, hc₀, hfresh⟩ := (Library.Plays.playQueue p'.library situation _ _).stored_before hc
    rw [hlibrary] at hc₀
    exact hsig (by rw [hc₀, Option.map_some, Chunk.signature_of_fresh_eq hfresh])
  rw [tick_library, tick_library, Library.foldl_finish_removed_iff, Library.foldl_finish_removed_iff, hlibrary]
  refine or_congr_right (exists_congr fun j => ?_)
  by_cases hj : j = id
  · subst hj
    apply iff_of_false
    · rintro ⟨-, c, hc, -, hsame⟩
      exact hkept p rfl c hc hsame
    · rintro ⟨-, c, hc, -, hsame⟩
      exact hkept p' hlibrary c hc hsame
  · dsimp only
    rw [mem_ended_iff_of_sameBut hj hqueue h, h.store j hj]

theorem slots_sameBut (hqueue : others id p.interpreter.queue = others id p'.interpreter.queue)
    (hlibrary : p'.library = p.library) (h : (p.round situation).SameBut id (p'.round situation))
    {signature : String} (hsig : (p.library.store.get? id).map Chunk.signature ≠ some signature) :
    (p.tick situation).playback.library.register.get? signature =
      (p'.tick situation).playback.library.register.get? signature := by
  have hremoved := removed_iff_of_sameBut hqueue hlibrary h hsig
  rcases (p.plays_tick situation).slots signature with hsame | hmarked
  · rcases (p'.plays_tick situation).slots signature with hsame' | hmarked'
    · rw [hsame, hsame', hlibrary]
    · rw [hmarked', hremoved.2 hmarked']
  · rw [hmarked, hremoved.1 hmarked]

/-- A script that stalls leaves no trace in the tick: without it everything else comes to the same. -/
theorem tick_sameBut_of_stalls (hqueue : p.interpreter.queue = before ++ q :: after)
    (halone : Alone id q before after)
    (h : q.Stalls situation (playQueue situation before p.library.store p.openScene).store
      (playQueue situation before p.library.store p.openScene).scene) :
    Tick.SameBut id ((p.library.store.get? id).map Chunk.signature) (p.tick situation)
      ((p.withQueue (before ++ after)).tick situation) := by
  have hround : (p.round situation).SameBut id ((p.withQueue (before ++ after)).round situation) := by
    rw [round, hqueue]
    exact h.round halone
  have hnone : id ∉ (before ++ after).map Queued.chunk := by
    rw [List.map_append, List.mem_append, not_or]
    exact ⟨halone.before, halone.after⟩
  have hothers : others id p.interpreter.queue = others id (p.withQueue (before ++ after)).interpreter.queue := by
    rw [hqueue, halone.others_eq]
    exact (others_eq_self hnone).symm
  have hnone' : id ∉ ((p.withQueue (before ++ after)).tick situation).playback.interpreter.queue.map Queued.chunk :=
    fun hmem => hnone ((tick_queue_sublist _ situation).subset hmem)
  have hqueue' := queue_sameBut hround
  rw [others_eq_self hnone'] at hqueue'
  have hscene := hround.scene
  exact {
    vars := congrArg Scene.vars hscene
    host := congrArg Scene.host hscene
    requests := congrArg Scene.requests hscene
    bindings := congrArg Scene.bindings hscene
    queue := hqueue'
    chunks := chunks_sameBut hothers hround
    slots := fun _ hsig => slots_sameBut hothers rfl hround hsig }

/-- An actor who is not welcomed hinders neither the lights nor a script without a chunk. -/
theorem tick_sameBut_of_stalls_foyer :
    let p := foyer.withQueue [.fresh ⟨0, 0⟩, .fresh ⟨1, 0⟩, .fresh ⟨7, 0⟩]
    let first := playQueue arriving [.fresh ⟨0, 0⟩] p.library.store p.openScene
    p.interpreter.queue = [.fresh ⟨0, 0⟩] ++ .fresh ⟨1, 0⟩ :: [.fresh ⟨7, 0⟩] ∧
      Alone ⟨1, 0⟩ (.fresh ⟨1, 0⟩) [.fresh ⟨0, 0⟩] [.fresh ⟨7, 0⟩] ∧
      (Queued.fresh ⟨1, 0⟩).Stalls arriving first.store first.scene ∧
      Tick.SameBut ⟨1, 0⟩ (some "0100.rom:7") (p.tick arriving)
        ((p.withQueue [.fresh ⟨0, 0⟩, .fresh ⟨7, 0⟩]).tick arriving) := by
  intro p first
  have halone : Alone ⟨1, 0⟩ (.fresh ⟨1, 0⟩) [.fresh ⟨0, 0⟩] [.fresh ⟨7, 0⟩] := ⟨rfl, by decide, by decide⟩
  have hcall : (Queued.fresh ⟨1, 0⟩).call? arriving first.store first.scene =
      some ⟨⟨1, 0⟩, 0, .ofKeyword "IfFrom" "99 1 2", .stop⟩ := by decide +kernel
  have hstalls : (Queued.fresh ⟨1, 0⟩).Stalls arriving first.store first.scene := .stops hcall (.inl rfl)
  exact ⟨rfl, halone, hstalls, tick_sameBut_of_stalls rfl halone hstalls⟩

end Playback
end Adventure.Script
