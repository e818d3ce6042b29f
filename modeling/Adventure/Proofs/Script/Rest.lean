import Adventure.Proofs.Script.Playing
/-! Chunks at rest, and where a script starts. A script that comes to the queue anew starts with the first
action of its chunk if the chunk is at rest. -/
namespace Adventure.Script

/-- The action that a script performs in its turn, if any. -/
def Queued.action? (situation : Situation) (q : Queued) (store : Store) (scene : Scene) : Option Action :=
  if q.wait.isPending situation scene.host then none
  else (store.get? q.chunk).bind Chunk.currentAction?

/-- The action that the first script of a chunk performs in a round. -/
def firstAction? (situation : Situation) (id : ChunkId) : List Queued → Store → Scene → Option Action
  | [], _, _ => none
  | q :: queue, store, scene =>
    if q.chunk = id then q.action? situation store scene
    else
      let turn := q.turn situation store scene
      firstAction? situation id queue turn.store turn.scene

theorem firstAction?_of_wait_none {situation : Situation} {id : ChunkId} {queue : List Queued}
    (hmem : id ∈ queue.map Queued.chunk) (hwait : ∀ q ∈ queue, q.chunk = id → q.wait = .none) (store : Store)
    (scene : Scene) : firstAction? situation id queue store scene =
      (store.get? id).bind Chunk.currentAction? := by
  induction queue generalizing store scene with
  | nil => cases hmem
  | cons q queue ih =>
      rw [firstAction?]
      split
      · next hq =>
        have hnot : ¬q.wait.isPending situation scene.host = true := by
          rw [hwait q List.mem_cons_self hq]
          exact Bool.false_ne_true
        rw [Queued.action?, if_neg hnot, hq]
      · next hq =>
        have hrest : id ∈ queue.map Queued.chunk := (List.mem_cons.1 hmem).resolve_left (Ne.symm hq)
        dsimp only
        rw [ih hrest fun q' hq' => hwait q' (List.mem_cons_of_mem q hq')]
        rcases q.turn_moved situation store scene with hsame | ⟨f, -, hmoved⟩
        · rw [hsame]
        · rw [hmoved, Store.get?_modify_of_ne store f (Ne.symm hq)]

namespace Playback
variable {p : Playback} {id : ChunkId} {c : Chunk}

/-! ### Chunks at rest -/

/-- A chunk that may run and is not queued stands at its start. -/
def AtRest (p : Playback) : Prop :=
  ∀ id c, p.library.store.get? id = some c → c.retired = false →
    id ∉ p.interpreter.queue.map Queued.chunk → c.position = 0

/-- A chunk that leaves the queue in a tick is finished, and the tick moves no other. -/
theorem AtRest.tick (h : p.AtRest) (situation : Situation) : (p.tick situation).playback.AtRest := by
  intro id c hc hr hnot
  by_cases hid : id ∈ p.interpreter.queue.map Queued.chunk
  · rw [tick_store, if_pos (mem_ended_iff.2 ⟨hid, hnot⟩)] at hc
    obtain ⟨c', -, rfl⟩ := Option.map_eq_some_iff.1 hc
    exact Chunk.position_finish hr
  · rw [tick_get?_of_not_mem hid] at hc
    exact h id c hc hr hid

theorem AtRest.interpret (h : p.AtRest) (candidates : List ChunkId) (previous : UInt16) :
    (p.interpret candidates previous).2.AtRest := by
  intro id c hc hr hnot
  rw [interpret_library] at hc
  rw [interpret_queue, List.map_append, List.mem_append, not_or] at hnot
  exact h id c hc hr hnot.1

/-! ### New scripts -/

/-- The next tick performs the first action of the chunk. -/
def Starts (p : Playback) (id : ChunkId) : Prop :=
  ∃ c a, p.library.store.get? id = some c ∧ c.position = 0 ∧ c.actions.head? = some a ∧
    ∀ situation, firstAction? situation id p.interpreter.queue p.library.store p.openScene = some a

theorem starts_of_wait_none (hmem : id ∈ p.interpreter.queue.map Queued.chunk)
    (hwait : ∀ q ∈ p.interpreter.queue, q.chunk = id → q.wait = .none)
    (hc : p.library.store.get? id = some c) (hpos : c.position = 0) (hactions : c.actions ≠ []) :
    p.Starts id := by
  obtain ⟨a, actions, heq⟩ := List.exists_cons_of_ne_nil hactions
  refine ⟨c, a, hc, hpos, by rw [heq]; rfl, fun situation => ?_⟩
  rw [firstAction?_of_wait_none hmem hwait, hc, Option.bind_some, Chunk.currentAction?, hpos, heq]
  rfl

theorem actions_of_isCandidate {vars : Variables} {previous : UInt16}
    (h : c.isCandidate vars previous = true) : c.actions ≠ [] := by
  simp only [Chunk.isCandidate, Bool.and_eq_true, Bool.not_eq_eq_eq_not, Bool.not_true] at h
  simpa using h.1.1.2

/-- A script of a chunk at rest that was not queued yet starts with the first action. -/
theorem AtRest.starts_interpret (h : p.AtRest) {candidates : List ChunkId} {previous : UInt16}
    (hid : (p.interpret candidates previous).1 = some id)
    (hnew : id ∉ p.interpreter.queue.map Queued.chunk) :
    (p.interpret candidates previous).2.Starts id := by
  obtain ⟨-, c, hc, hcand⟩ := candidate_of_interpret hid
  have hqueue := p.interpret_queue candidates previous
  rw [hid, Option.toList_some, List.map_singleton] at hqueue
  refine starts_of_wait_none (c := c) ?_ (fun q hq hchunk => ?_) ?_ ?_ (actions_of_isCandidate hcand)
  · rw [hqueue]
    simp [Queued.fresh]
  · rw [hqueue, List.mem_append, List.mem_singleton] at hq
    rcases hq with hq | rfl
    · exact absurd (hchunk ▸ List.mem_map_of_mem hq) hnew
    · rfl
  · rw [interpret_library, hc]
  · exact h id c hc (retired_of_isCandidate hcand) hnew

end Playback
end Adventure.Script
