import Adventure.Proofs.Script.Phase
import Adventure.Proofs.Script.Resume
/-! Runs of the scripts. Whatever else happens between the ticks and whatever other scripts do in them, a
chunk that is queued once plays out, and the scripts keep their order in the queue. -/
namespace Adventure.Script

theorem Library.foldl_finish_removed {l : Library} {ids : List ChunkId} {id : ChunkId} {c : Chunk}
    (hid : id ∈ ids) (hc : l.store.get? id = some c) (honce : c.once = true) :
    (ids.foldl finish l).register.get? c.signature = some .removed := by
  induction ids generalizing l with
  | nil => cases hid
  | cons j ids ih =>
      rw [List.foldl_cons]
      by_cases hj : j = id
      · subst hj
        have hremoved : (l.finish j).register.get? c.signature = some .removed := by
          rw [finish_register, hc]
          simp [honce]
        have hplays : (l.finish j).Plays (ids.foldl finish (l.finish j)) :=
          foldl_finish_induction (Plays (l.finish j) ·) _ _ (fun _ hl => hl.trans (.finish _ _)) (.refl _)
        rcases hplays.slots c.signature with heq | heq
        · rw [heq, hremoved]
        · exact heq
      · refine ih ((List.mem_cons.1 hid).resolve_left (Ne.symm hj)) ?_
        rw [finish_store, Store.get?_modify_of_ne _ _ (Ne.symm hj), hc]

theorem Alone.filter {id : ChunkId} {q : Queued} {before after : List Queued} (h : Alone id q before after)
    (keep : Queued → Bool) : Alone id q (before.filter keep) (after.filter keep) where
  chunk := h.chunk
  before hmem := h.before ((List.filter_sublist.map _).subset hmem)
  after hmem := h.after ((List.filter_sublist.map _).subset hmem)

theorem Alone.append {id : ChunkId} {q : Queued} {before after : List Queued} (h : Alone id q before after)
    {ids : List ChunkId} (hids : id ∉ ids) : Alone id q before (after ++ ids.map .fresh) where
  chunk := h.chunk
  before := h.before
  after hmem := by
    rw [List.map_append, List.mem_append, List.map_map] at hmem
    rcases hmem with hmem | hmem
    · exact h.after hmem
    · exact hids (by simpa [Queued.fresh] using hmem)

theorem Queued.isDone_iff {q : Queued} {store : Store} {id : ChunkId} {c : Chunk} {place : Nat}
    (hchunk : q.chunk = id) (hstored : store.get? id = some { c with position := place }) :
    q.isDone store = true ↔ q.wait = .none ∧ c.actions.length ≤ place := by
  simp [Queued.isDone, hchunk, hstored, Chunk.isFinished]

namespace Playback
variable {p : Playback} {situation : Situation} {id : ChunkId} {c : Chunk} {q : Queued}
  {before after : List Queued} {φ : Phase}

/-! ### Events -/

/-- What may happen between the ticks, and the ticks. -/
inductive Event where
  | step (s : Step)
  | enqueue (id : ChunkId)
  | release (id : ChunkId)

def happen (p : Playback) : Event → Playback
  | .step s => p.perform s
  | .enqueue id => { p with interpreter := p.interpreter.enqueue id }
  | .release id => { p with library := p.library.release id }

/-- The chunks that an event queues. -/
def queues (p : Playback) : Event → List ChunkId
  | .step (.interpret candidates previousRoom) => (p.interpret candidates previousRoom).1.toList
  | .enqueue id => [id]
  | _ => []

def queuedBy : List Event → Playback → List ChunkId
  | [], _ => []
  | e :: events, p => p.queues e ++ queuedBy events (p.happen e)

/-- What a tick shows of a chunk. -/
def beat (p : Playback) (id : ChunkId) (situation : Situation) : Beat where
  situation
  scene? := sceneAt? situation id p.interpreter.queue p.library.store p.openScene
  calls := (calls situation p.interpreter.queue p.library.store p.openScene).filter (·.chunk = id)
  queued := (p.tick situation).playback.interpreter.isQueued id
  chunk? := (p.tick situation).playback.library.store.get? id
  progress? := ((p.tick situation).playback.library.store.get? id).bind fun c =>
    (p.tick situation).playback.library.register.get? c.signature

def beat? (p : Playback) (id : ChunkId) : Event → Option Beat
  | .step (.tick situation) => some (p.beat id situation)
  | _ => none

theorem exists_tick_of_beat? {e : Event} {b : Beat} (h : p.beat? id e = some b) :
    ∃ situation, e = .step (.tick situation) ∧ p.beat id situation = b := by
  unfold beat? at h
  split at h
  · exact ⟨_, rfl, Option.some.inj h⟩
  · cases h

/-- What the ticks show of a chunk. -/
def log (id : ChunkId) : List Event → Playback → List Beat
  | [], _ => []
  | e :: events, p => (p.beat? id e).toList ++ log id events (p.happen e)

/-! ### A chunk in its phase -/

/-- The chunk and its only script are in a phase. -/
inductive Stands (id : ChunkId) (c : Chunk) (p : Playback) : Phase → Prop where
  | queued {place : Nat} {before after : List Queued} {q : Queued}
      (hstored : p.library.store.get? id = some { c with position := place })
      (hqueue : p.interpreter.queue = before ++ q :: after) (halone : Alone id q before after) :
      Stands id c p (.queued place q.wait)
  | gone (hnot : id ∉ p.interpreter.queue.map Queued.chunk) : Stands id c p .gone

theorem isQueued_iff {i : Interpreter} : i.isQueued id = true ↔ id ∈ i.queue.map Queued.chunk := by
  simp [Interpreter.isQueued]

theorem isQueued_eq_false_iff {i : Interpreter} : i.isQueued id = false ↔ id ∉ i.queue.map Queued.chunk := by
  rw [← isQueued_iff, Bool.not_eq_true]

/-- A script that is not done at the end of a round stays. -/
theorem stands_of_not_isDone {place : Nat} (hqueue : (p.round situation).queue = before ++ q :: after)
    (halone : Alone id q before after)
    (hstored : (p.round situation).store.get? id = some { c with position := place })
    (hleft : place < c.actions.length ∨ q.wait ≠ .none) :
    (p.beat id situation).queued = true ∧ Stands id c (p.tick situation).playback (.queued place q.wait) := by
  have hdone : ¬q.isDone (p.round situation).store = true := by
    rw [Queued.isDone_iff halone.chunk hstored]
    rintro ⟨hwait, hplace⟩
    rcases hleft with hlt | hne
    · exact Nat.not_lt.2 hplace hlt
    · exact hne hwait
  have hkept : (p.tick situation).playback.interpreter.queue =
      before.filter (!·.isDone (p.round situation).store) ++
        q :: after.filter (!·.isDone (p.round situation).store) := by
    rw [tick_queue, hqueue, List.filter_append, List.filter_cons_of_pos (by simpa using hdone)]
  have hmem : id ∈ (p.tick situation).playback.interpreter.queue.map Queued.chunk := by
    rw [hkept, List.map_append, List.map_cons, halone.chunk]
    exact List.mem_append_right _ List.mem_cons_self
  refine ⟨isQueued_iff.2 hmem, .queued ?_ hkept (halone.filter _)⟩
  rw [tick_store, if_neg fun hended => (mem_ended_iff.1 hended).2 hmem, hstored]

/-- A script that is done at the end of a round leaves, and its chunk is rewound or retired. -/
theorem gone_of_isDone {place : Nat} (hqueue : (p.round situation).queue = before ++ q :: after)
    (halone : Alone id q before after)
    (hstored : (p.round situation).store.get? id = some { c with position := place })
    (hwait : q.wait = .none) (hplace : c.actions.length ≤ place) :
    (p.beat id situation).Ends c ∧ Stands id c (p.tick situation).playback .gone := by
  have hdone : q.isDone (p.round situation).store = true :=
    (Queued.isDone_iff halone.chunk hstored).2 ⟨hwait, hplace⟩
  have hnot : id ∉ (p.tick situation).playback.interpreter.queue.map Queued.chunk := by
    have hrest := halone.filter (!·.isDone (p.round situation).store)
    rw [tick_queue, hqueue, List.filter_append, List.filter_cons_of_neg (by simp [hdone]), List.map_append,
      List.mem_append, not_or]
    exact ⟨hrest.before, hrest.after⟩
  have hended : id ∈ p.ended situation := by
    refine mem_ended_iff.2 ⟨?_, hnot⟩
    rw [← playQueue_chunks situation p.interpreter.queue p.library.store p.openScene, ← round, hqueue,
      List.map_append, List.map_cons, halone.chunk]
    exact List.mem_append_right _ List.mem_cons_self
  have hfinish : { c with position := place }.finish = c.finish := by
    unfold Chunk.finish
    split <;> rfl
  have hchunk : (p.tick situation).playback.library.store.get? id = some c.finish := by
    rw [tick_store, if_pos hended, hstored, Option.map_some, hfinish]
  refine ⟨⟨isQueued_eq_false_iff.2 hnot, hchunk, fun honce => ?_⟩, .gone hnot⟩
  rw [beat, hchunk, Option.bind_some, Chunk.finish_signature, tick_library]
  exact Library.foldl_finish_removed (c := { c with position := place }) hended hstored honce

/-- What a tick shows of the only script of a chunk, by its turn in the round. -/
structure Shown (p : Playback) (situation : Situation) (id : ChunkId) (scene : Scene) (call? : Option Call)
    (t : Turn) : Prop where
  holdsBack_iff : ∀ reason, (p.beat id situation).HoldsBack reason ↔
    reason.isPending situation scene.host = true
  calls : (p.beat id situation).calls = call?.toList
  stored : (p.round situation).store.get? id = t.store.get? id
  queue : ∃ first rest, (p.round situation).queue = first ++ t.script :: rest ∧ Alone id t.script first rest

theorem Alone.exists_shown (halone : Alone id q before after) (hqueue : p.interpreter.queue = before ++ q :: after)
    (situation : Situation) : ∃ store scene, store.get? id = p.library.store.get? id ∧
      Shown p situation id scene (q.call? situation store scene) (q.turn situation store scene) := by
  obtain ⟨store, scene, first, rest, hsame, hscene, hcalls, hstore, hround, halone'⟩ :=
    halone.playQueue situation p.library.store p.openScene
  rw [← hqueue] at hscene hcalls hstore hround
  refine ⟨store, scene, hsame, fun reason => ?_, hcalls, hstore, first, rest, hround, halone'⟩
  simp [Beat.HoldsBack, beat, hscene]

variable {scene : Scene} {t : Turn} {place : Nat} {wait : Wait}

theorem Shown.held (h : Shown p situation id scene none t) (hwait : t.script.wait = wait)
    (hstored : t.store.get? id = some { c with position := place })
    (hback : wait.isPending situation scene.host = true) :
    Phase.Step c (p.beat id situation) (.queued place wait) (.queued place wait) ∧
      Stands id c (p.tick situation).playback (.queued place wait) := by
  have hne : t.script.wait ≠ .none := by
    rw [hwait]
    rintro rfl
    cases hback
  obtain ⟨first, rest, hround, halone⟩ := h.queue
  obtain ⟨hqueued, hstands⟩ := stands_of_not_isDone hround halone (h.stored.trans hstored) (.inr hne)
  rw [hwait] at hstands
  exact ⟨.held ((h.holdsBack_iff wait).2 hback) h.calls hqueued, hstands⟩

theorem Shown.spent (h : Shown p situation id scene none t) (hnone : t.script.wait = .none)
    (hstored : t.store.get? id = some { c with position := place })
    (hfree : ¬wait.isPending situation scene.host = true) (hplace : c.actions.length ≤ place) :
    Phase.Step c (p.beat id situation) (.queued place wait) .gone ∧
      Stands id c (p.tick situation).playback .gone := by
  obtain ⟨first, rest, hround, halone⟩ := h.queue
  obtain ⟨hends, hstands⟩ := gone_of_isDone hround halone (h.stored.trans hstored) hnone hplace
  exact ⟨.spent (mt (h.holdsBack_iff wait).1 hfree) hplace h.calls hends, hstands⟩

/-- After its action the script stays, unless that was the last one and there is nothing to wait for. -/
theorem Shown.acts {call : Call} (h : Shown p situation id scene (some call) t)
    (hwait : t.script.wait = call.outcome.reason)
    (hstored : t.store.get? id = some { c with position := call.outcome.next c.actions.length place })
    (hfree : ¬wait.isPending situation scene.host = true) (hplace : call.place = place)
    (haction : c.actions[place]? = some call.action) (houtcome : call.outcome ≠ .wait .none) :
    ∃ φ, Phase.Step c (p.beat id situation) (.queued place wait) φ ∧
      Stands id c (p.tick situation).playback φ := by
  have hacts : (p.beat id situation).Acts c place call := ⟨h.calls, hplace, haction, houtcome⟩
  have hback : ¬(p.beat id situation).HoldsBack wait := mt (h.holdsBack_iff wait).1 hfree
  obtain ⟨first, rest, hround, halone⟩ := h.queue
  by_cases hlast : call.outcome.reason = .none ∧ c.actions.length ≤ call.outcome.next c.actions.length place
  · obtain ⟨hends, hstands⟩ := gone_of_isDone hround halone (h.stored.trans hstored)
      (hwait.trans hlast.1) hlast.2
    exact ⟨_, .ends call hback hacts hlast.2 hlast.1 hends, hstands⟩
  · rw [not_and_or, Nat.not_le] at hlast
    obtain ⟨hqueued, hstands⟩ := stands_of_not_isDone hround halone (h.stored.trans hstored)
      (hwait ▸ hlast.symm)
    rw [hwait] at hstands
    exact ⟨_, .acts call hback hacts hqueued hlast.symm, hstands⟩

/-- A tick brings the script from one phase to the next. -/
theorem Stands.tick (h : Stands id c p φ) (situation : Situation) :
    ∃ φ', Phase.Step c (p.beat id situation) φ φ' ∧ Stands id c (p.tick situation).playback φ' := by
  cases h with
  | gone hnot =>
      have hstill : id ∉ (p.tick situation).playback.interpreter.queue.map Queued.chunk := fun hmem =>
        hnot ((p.tick_queue_sublist situation).subset hmem)
      exact ⟨.gone, .gone (sceneAt?_of_not_mem hnot) (calls_of_not_mem hnot) (isQueued_eq_false_iff.2 hstill),
        .gone hstill⟩
  | @queued place before after q hstored hqueue halone =>
      obtain ⟨store, scene, hsame, hshown⟩ := Alone.exists_shown halone hqueue situation
      have htakes := q.turn_takes situation store scene
      rw [hstored] at hsame
      generalize q.turn situation store scene = t at *
      generalize q.call? situation store scene = call? at *
      cases htakes with
      | held hback hidle =>
          exact ⟨_, hshown.held hidle.wait_eq (by rw [hidle.store_eq, hsame]) hback⟩
      | spent hfree hspent hidle =>
          rw [halone.chunk, hsame] at hspent
          exact ⟨_, hshown.spent hidle.wait_eq (by rw [hidle.store_eq, hsame]) hfree
            (List.getElem?_eq_none_iff.1 hspent)⟩
      | @calls c' call hfree hc haction hchunk hplace hwait hmakes =>
          rw [halone.chunk, hsame] at hc
          cases hc
          have hmoved := hmakes.stored
          rw [hchunk, halone.chunk, hplace] at hmoved
          exact hshown.acts hmakes.wait hmoved hfree hplace haction hwait

/-! ### Runs -/

theorem happen_queue {e : Event} (he : p.beat? id e = none) :
    (p.happen e).interpreter.queue = p.interpreter.queue ++ (p.queues e).map .fresh := by
  cases e with
  | enqueue j => rfl
  | release j => exact (List.append_nil _).symm
  | step s =>
      cases s with
      | interpret candidates previousRoom => exact p.interpret_queue candidates previousRoom
      | tick situation => cases he
      | outside vars host => exact (List.append_nil _).symm

theorem happen_stored {e : Event} (he : p.beat? id e = none) (hkept : e ≠ .release id) :
    (p.happen e).library.store.get? id = p.library.store.get? id := by
  cases e with
  | enqueue j => rfl
  | release j =>
      have hne : id ≠ j := fun heq => hkept (heq ▸ rfl)
      rw [happen, Library.release_store, Store.get?_remove, if_neg hne]
  | step s =>
      cases s with
      | interpret candidates previousRoom => rw [happen, perform, interpret_library]
      | tick situation => cases he
      | outside vars host => rfl

/-- Between the ticks nothing happens to a chunk that is neither queued again nor released. -/
theorem Stands.happen (h : Stands id c p φ) {e : Event} (he : p.beat? id e = none) (hnew : id ∉ p.queues e)
    (hkept : e ≠ .release id) : Stands id c (p.happen e) φ := by
  have hqueue := happen_queue he
  cases h with
  | queued hstored hold halone =>
      rw [hold, List.append_assoc, List.cons_append] at hqueue
      exact .queued (by rw [happen_stored he hkept, hstored]) hqueue (halone.append hnew)
  | gone hnot =>
      refine .gone ?_
      rw [hqueue, List.map_append, List.mem_append, List.map_map, not_or]
      exact ⟨hnot, by simpa [Queued.fresh] using hnew⟩

theorem Stands.run {events : List Event} (h : Stands id c p φ) (hnew : id ∉ queuedBy events p)
    (hkept : .release id ∉ events) :
    ∃ φ', Phase.Run c φ (log id events p) φ' ∧ Stands id c (events.foldl Playback.happen p) φ' := by
  induction events generalizing p φ with
  | nil => exact ⟨φ, .nil, h⟩
  | cons e events ih =>
      rw [queuedBy, List.mem_append, not_or] at hnew
      rw [List.mem_cons, not_or] at hkept
      rw [log, List.foldl_cons]
      cases he : p.beat? id e with
      | none => exact ih (h.happen he hnew.1 (Ne.symm hkept.1)) hnew.2 hkept.2
      | some b =>
          obtain ⟨situation, rfl, rfl⟩ := exists_tick_of_beat? he
          obtain ⟨φ₁, hstep, h₁⟩ := h.tick situation
          obtain ⟨φ₂, hrun, h₂⟩ := ih h₁ hnew.2 hkept.2
          exact ⟨φ₂, .cons hstep hrun, h₂⟩

theorem happen_sublist (p : Playback) (e : Event) : ((p.happen e).interpreter.queue.map Queued.chunk).Sublist
    (p.interpreter.queue.map Queued.chunk ++ p.queues e) := by
  by_cases htick : ∃ situation, e = .step (.tick situation)
  · obtain ⟨situation, rfl⟩ := htick
    exact (p.tick_queue_sublist situation).trans (List.sublist_append_left _ _)
  · have he : p.beat? ⟨0, 0⟩ e = none := by
      unfold beat?
      split
      · exact absurd ⟨_, rfl⟩ htick
      · rfl
    rw [happen_queue he, List.map_append, List.map_map]
    simp [Function.comp_def, Queued.fresh]

/-- Scripts keep their order in the queue, and new ones come to its end. -/
theorem run_sublist (p : Playback) (events : List Event) :
    ((events.foldl happen p).interpreter.queue.map Queued.chunk).Sublist
      (p.interpreter.queue.map Queued.chunk ++ queuedBy events p) := by
  induction events generalizing p with
  | nil => rw [queuedBy, List.append_nil, List.foldl_nil]
  | cons e events ih =>
      rw [List.foldl_cons, queuedBy, ← List.append_assoc]
      exact (ih _).trans ((p.happen_sublist e).append_right _)

/-- A chunk that is queued once at its start plays out, and the other scripts keep their order. -/
theorem playsOut_log {events : List Event} (hc : p.library.store.get? id = some c) (hpos : c.position = 0)
    (hqueue : p.interpreter.queue = before ++ q :: after) (halone : Alone id q before after)
    (hwait : q.wait = .none) (hnew : id ∉ queuedBy events p) (hkept : .release id ∉ events) :
    PlaysOut c (log id events p) ∧
      ((events.foldl happen p).interpreter.queue.map Queued.chunk).Sublist
        (p.interpreter.queue.map Queued.chunk ++ queuedBy events p) := by
  have hstands : Stands id c p (.queued 0 .none) := by
    rw [← hwait]
    refine .queued ?_ hqueue halone
    rw [hc, ← hpos]
  obtain ⟨φ, hrun, -⟩ := hstands.run hnew hkept
  exact ⟨hrun.playsOut, run_sublist p events⟩

/-- A script that holds until the lamp is lit, and then waits before its only write. -/
def lampWatch : Chunk :=
  .ofParts "0100.rom:7" [] [.ofKeyword "Wait" "Lamp", .ofKeyword "Delay" "20", .ofKeyword "Set" "A"]

/-- The first action is tried until the lamp is lit, and the last one is performed when the delay is over. Meanwhile the
script before it in the queue is queued again. -/
theorem playsOut_log_lampWatch :
    let start := ofChunks [delayedWrite, lampWatch] [] (.ofSeed 0 10) .empty (Host.silent false)
    let p := (start.happen (.enqueue ⟨0, 0⟩)).happen (.enqueue ⟨1, 0⟩)
    let lit := Variables.empty.set "Lamp" 1
    let later := { Host.silent false with now := 20 }
    let tick : Event := .step (.tick ⟨⟨1, 0⟩, false⟩)
    let events : List Event := [tick, .enqueue ⟨0, 0⟩, .step (.outside lit (Host.silent false)), tick, tick, tick,
      .step (.outside lit later), tick, tick]
    p.library.store.get? ⟨1, 0⟩ = some lampWatch ∧ lampWatch.position = 0 ∧
      p.interpreter.queue = [.fresh ⟨0, 0⟩] ++ .fresh ⟨1, 0⟩ :: [] ∧
      Alone ⟨1, 0⟩ (.fresh ⟨1, 0⟩) [.fresh ⟨0, 0⟩] [] ∧
      ⟨1, 0⟩ ∉ queuedBy events p ∧ .release ⟨1, 0⟩ ∉ events ∧
      (log ⟨1, 0⟩ events p).map (fun b => (b.calls.map fun call => (call.place, call.outcome), b.queued)) =
        [([(0, .hold)], true), ([(0, .ok)], true), ([(1, .wait (.delay 20))], true), ([], true),
          ([(2, .ok)], false), ([], false)] ∧
      PlaysOut lampWatch (log ⟨1, 0⟩ events p) := by
  intro start p lit later tick events
  have hc : p.library.store.get? ⟨1, 0⟩ = some lampWatch := by decide
  have hqueue : p.interpreter.queue = [.fresh ⟨0, 0⟩] ++ .fresh ⟨1, 0⟩ :: [] := rfl
  have halone : Alone ⟨1, 0⟩ (.fresh ⟨1, 0⟩) [.fresh ⟨0, 0⟩] [] := ⟨rfl, by decide, by decide⟩
  have hnew : ⟨1, 0⟩ ∉ queuedBy events p := by simp [events, tick, queuedBy, queues]
  have hkept : .release ⟨1, 0⟩ ∉ events := by simp [events, tick]
  exact ⟨hc, rfl, hqueue, halone, hnew, hkept, by decide,
    (playsOut_log hc rfl hqueue halone rfl hnew hkept).1⟩

end Playback
end Adventure.Script
