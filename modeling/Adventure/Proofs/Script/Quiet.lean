import Mathlib.Data.List.Induction
import Adventure.Proofs.Script.Lapses
/-! Quiet ticks. A tick that reports no change has made none: every queued script was held back or held, and
all that moved are the counters of idle ticks. So the next tick is quiet as well, until something happens from
outside, and the scripts count as drained once there have been enough such ticks in a row. -/
namespace Adventure

/-- The answers that scripts get from the host are the same. -/
structure Host.SameAnswers (h h' : Host) : Prop where
  now : h'.now = h.now
  moviePlaying : h'.moviePlaying = h.moviePlaying
  isSoundPlaying : ∀ id, h'.isSoundPlaying id = h.isSoundPlaying id

namespace Script

variable {situation : Situation} {q : Queued} {store : Store} {scene : Scene}

/-! ### Scripts that rest -/

/-- The only action that holds is one that waits for variables to have certain values. -/
theorem Action.perform_eq_hold_iff {a : Action} {s : Scene} :
    (a.perform situation s).1 = .hold ↔ a.kind = .waitUntil ∧ s.vars.meets a.args = false := by
  have hnot : ¬Outcome.hold.Completes := not_false
  rw [(a.ends_perform situation s).lapses_iff hnot]
  exact ⟨fun | .unmet hkind hunmet => ⟨hkind, hunmet⟩, fun ⟨hkind, hunmet⟩ => .unmet hkind hunmet⟩

/-- The script with one more tick of waiting or holding. -/
def Queued.held (q : Queued) : Queued :=
  { q with heldTicks := q.heldTicks + 1 }

/-- The script is held back, or it waits for variables that have other values. -/
inductive Queued.Rests (situation : Situation) (store : Store) (vars : Variables) (host : Host) (q : Queued) :
    Prop where
  | waits (hback : q.wait.isPending situation host = true)
  | holds {c : Chunk} {action : Action} (hnone : q.wait = .none) (hc : store.get? q.chunk = some c)
      (haction : c.currentAction? = some action) (hkind : action.kind = .waitUntil)
      (hunmet : vars.meets action.args = false)

theorem Queued.turn_of_rests (h : q.Rests situation store scene.vars scene.host) :
    q.turn situation store scene = ⟨q.held, store, scene, false⟩ := by
  cases h with
  | waits hback => exact turn_of_isPending hback
  | @holds c action hnone hc haction hkind hunmet =>
      have hcurrent : (store.get? q.chunk).bind Chunk.currentAction? = some action := by
        rw [hc]
        exact haction
      have hholds : action.perform situation scene = (.hold, scene) := by simp [Action.perform, hkind, hunmet]
      rw [turn, if_pos hnone, act, hcurrent]
      dsimp only
      rw [hholds]
      rfl

/-- A turn without a change: the script rests, or it is done. -/
theorem Queued.rests_or_isDone (h : (q.turn situation store scene).changed = false) :
    q.Rests situation store scene.vars scene.host ∨
      q.turn situation store scene = ⟨q, store, scene, false⟩ ∧ q.isDone store = true := by
  unfold turn at h ⊢
  split at h
  · next hnone =>
    rw [if_pos hnone]
    unfold act at h ⊢
    cases hcurrent : (store.get? q.chunk).bind Chunk.currentAction? with
    | none =>
        refine .inr ⟨rfl, ?_⟩
        cases hc : store.get? q.chunk with
        | none => simp [isDone, hnone, hc]
        | some c =>
            rw [hc, Option.bind_some] at hcurrent
            simpa [isDone, hnone, hc, Chunk.isFinished] using List.getElem?_eq_none_iff.1 hcurrent
    | some action =>
        obtain ⟨c, hc, haction⟩ := Option.bind_eq_some_iff.1 hcurrent
        rw [hcurrent] at h
        dsimp only at h
        split at h
        case h_5 scene' hholds =>
          obtain ⟨hkind, hunmet⟩ := Action.perform_eq_hold_iff.1 (congrArg Prod.fst hholds)
          exact .inl (.holds hnone hc haction hkind hunmet)
        all_goals cases h
  · split at h
    · next hback => exact .inl (.waits hback)
    · -- A wait that is over counts as a change, whatever the script does then.
      exfalso
      unfold act at h
      split at h
      · cases h
      · dsimp only at h
        split at h <;> cases h

/-! ### Rounds -/

theorem playQueue_of_rests {queue : List Queued}
    (h : ∀ q ∈ queue, q.Rests situation store scene.vars scene.host) :
    playQueue situation queue store scene = ⟨queue.map Queued.held, store, scene, false⟩ := by
  induction queue with
  | nil => rfl
  | cons q queue ih =>
      rw [List.forall_mem_cons] at h
      rw [playQueue, Queued.turn_of_rests h.1]
      dsimp only
      rw [ih h.2]
      rfl

theorem Queued.Rests.not_isDone {vars : Variables} {host : Host} (h : q.Rests situation store vars host) :
    q.held.isDone store = false := by
  cases h with
  | waits hback =>
      have hwait : q.wait ≠ .none := by
        rintro hnone
        rw [hnone] at hback
        cases hback
      simp [isDone, held, hwait]
  | holds hnone hc haction _ _ =>
      have hlt := (List.getElem?_eq_some_iff.1 haction).1
      simp [isDone, held, hc, Chunk.isFinished, hlt]

/-- In a round without a change, after which no script is done, all of them rest. -/
theorem rests_of_playQueue {queue : List Queued} (h : (playQueue situation queue store scene).changed = false)
    (hdone : ∀ q ∈ (playQueue situation queue store scene).queue,
      q.isDone (playQueue situation queue store scene).store = false) :
    ∀ q ∈ queue, q.Rests situation store scene.vars scene.host := by
  induction queue with
  | nil => exact nofun
  | cons q queue ih =>
      rw [playQueue, Bool.or_eq_false_iff] at h
      rw [playQueue, List.forall_mem_cons] at hdone
      obtain ⟨hturn, hround⟩ := h
      rcases Queued.rests_or_isDone hturn with hrests | ⟨hidle, hover⟩
      · rw [Queued.turn_of_rests hrests] at hround hdone
        exact List.forall_mem_cons.2 ⟨hrests, ih hround hdone.2⟩
      · rw [hidle] at hround hdone
        have hrest := playQueue_of_rests (ih hround hdone.2)
        dsimp only at hdone
        rw [hrest] at hdone
        exact absurd hover (by simp [hdone.1])

/-! ### Quiet ticks -/

namespace Playback
variable {p : Playback}

/-- Every sound that is waited for plays, and every script rests. -/
structure Quiet (p : Playback) (situation : Situation) : Prop where
  sounds : ∀ b ∈ p.interpreter.bindings, p.host.isSoundPlaying b.id = true
  scripts : ∀ q ∈ p.interpreter.queue, q.Rests situation p.library.store p.vars p.host

/-- The playback after a tick without a change. -/
def idle (p : Playback) : Playback :=
  { p with interpreter := {
      p.interpreter with
      queue := p.interpreter.queue.map Queued.held
      idleTicks := p.interpreter.idleTicks + 1 } }

theorem openScene_of_sounds (h : ∀ b ∈ p.interpreter.bindings, p.host.isSoundPlaying b.id = true) :
    p.openScene = ⟨p.vars, p.host, [], p.interpreter.bindings⟩ := by
  have hstopped : p.interpreter.bindings.filter (fun b => !p.host.isSoundPlaying b.id) = [] := by
    apply List.filter_eq_nil_iff.2
    intro b hb
    simp [h b hb]
  have hplaying : p.interpreter.bindings.filter (fun b => p.host.isSoundPlaying b.id) = p.interpreter.bindings :=
    List.filter_eq_self.2 h
  rw [openScene, fireBindings, hstopped, hplaying]
  rfl

theorem sounds_iff : (p.interpreter.bindings.any fun b => !p.host.isSoundPlaying b.id) = false ↔
    ∀ b ∈ p.interpreter.bindings, p.host.isSoundPlaying b.id = true := by
  simp

/-- Nothing but the counters moves in a quiet tick. -/
theorem Quiet.tick_eq (h : p.Quiet situation) : p.tick situation = ⟨p.idle, [], false⟩ := by
  have hscene := openScene_of_sounds h.sounds
  have hround : playQueue situation p.interpreter.queue p.library.store p.openScene =
      ⟨p.interpreter.queue.map Queued.held, p.library.store, p.openScene, false⟩ := by
    apply playQueue_of_rests
    rw [hscene]
    exact h.scripts
  have hnot : ∀ q ∈ p.interpreter.queue.map Queued.held, q.isDone p.library.store = false := by
    intro q' hq'
    obtain ⟨q, hq, rfl⟩ := List.mem_map.1 hq'
    exact (h.scripts q hq).not_isDone
  have hstay : (p.interpreter.queue.map Queued.held).filter (fun q => !q.isDone p.library.store) =
      p.interpreter.queue.map Queued.held := List.filter_eq_self.2 fun q hq => by simp [hnot q hq]
  have hleave : (p.interpreter.queue.map Queued.held).filter (fun q => q.isDone p.library.store) = [] :=
    List.filter_eq_nil_iff.2 fun q hq => by simp [hnot q hq]
  unfold tick
  dsimp only
  rw [hround, sounds_iff.2 h.sounds]
  dsimp only
  rw [hstay, hleave, hscene]
  rfl

theorem quiet_of_changed (h : (p.tick situation).changed = false) : p.Quiet situation := by
  rw [tick_changed, Bool.or_eq_false_iff, Bool.or_eq_false_iff] at h
  obtain ⟨⟨hsounds, hround⟩, hdone⟩ := h
  have hplaying := sounds_iff.1 hsounds
  refine ⟨hplaying, ?_⟩
  have hrests := rests_of_playQueue hround fun q hq => ?_
  · rwa [openScene_of_sounds hplaying] at hrests
  · rw [Bool.not_eq_eq_eq_not, Bool.not_false, List.isEmpty_iff, List.filter_eq_nil_iff] at hdone
    exact Bool.not_eq_true _ ▸ hdone q hq

theorem quiet_iff : p.Quiet situation ↔ (p.tick situation).changed = false :=
  ⟨fun h => by rw [h.tick_eq], quiet_of_changed⟩

/-- After a quiet tick the next one is quiet as well, if the host gives the same answers. -/
theorem Quiet.idle (h : p.Quiet situation) {situation' : Situation} {host : Host}
    (hactive : situation'.conversationActive = situation.conversationActive) (hhost : p.host.SameAnswers host) :
    { p.idle with host }.Quiet situation' := by
  have hpending : ∀ w : Wait, w.isPending situation' host = w.isPending situation p.host := by
    intro w
    cases w with
    | none => rfl
    | conversation => exact hactive
    | movie => exact hhost.moviePlaying
    | delay due => simp [Wait.isPending, hhost.now]
  refine ⟨fun b hb => (hhost.isSoundPlaying b.id).trans (h.sounds b hb), ?_⟩
  intro q' hq'
  obtain ⟨q, hq, rfl⟩ := List.mem_map.1 hq'
  cases h.scripts q hq with
  | waits hback => exact .waits ((hpending q.wait).trans hback)
  | holds hnone hc haction hkind hunmet => exact .holds hnone hc haction hkind hunmet

/-! ### Counting quiet ticks -/

/-- What may be done with the scripts, and what may happen to their chunks. -/
inductive Handling where
  | event (e : Event)
  | library (l : Library)
  | clear
  | restore (state : InterpreterState)

def handle (p : Playback) : Handling → Playback
  | .event e => p.happen e
  | .library l => { p with library := l }
  | .clear => { p with interpreter := p.interpreter.clear }
  | .restore state => { p with interpreter := p.interpreter.restore state p.library p.host.now }

/-- What a handling means for the count of quiet ticks. -/
structure Mark where
  ticks : Bool
  resets : Bool
  deriving DecidableEq

/-- A tick with a change, a script that is queued, and queues that are cleared or restored begin the count
anew. -/
def mark (p : Playback) : Handling → Mark
  | .event (.step (.tick situation)) => ⟨true, (p.tick situation).changed⟩
  | .event (.step (.interpret candidates previousRoom)) =>
    ⟨false, (p.interpret candidates previousRoom).1.isSome⟩
  | .event (.step (.outside _ _)) => ⟨false, false⟩
  | .event (.enqueue _) => ⟨false, true⟩
  | .event (.release _) => ⟨false, false⟩
  | .library _ => ⟨false, false⟩
  | .clear => ⟨false, true⟩
  | .restore _ => ⟨false, true⟩

def marks : List Handling → Playback → List Mark
  | [], _ => []
  | e :: run, p => p.mark e :: marks run (p.handle e)

/-- The ticks after the latest mark that resets the count. -/
def ticksSinceReset (ms : List Mark) : Nat :=
  (ms.reverse.takeWhile (!·.resets)).countP (·.ticks)

theorem ticksSinceReset_concat (ms : List Mark) (m : Mark) : ticksSinceReset (ms ++ [m]) =
    if m.resets then 0 else ticksSinceReset ms + if m.ticks then 1 else 0 := by
  cases hresets : m.resets <;> simp [ticksSinceReset, hresets, List.countP_cons]

theorem marks_concat (run : List Handling) (e : Handling) (p : Playback) :
    marks (run ++ [e]) p = marks run p ++ [(run.foldl handle p).mark e] := by
  induction run generalizing p with
  | nil => rfl
  | cons e' run ih => rw [List.cons_append, marks, marks, ih, List.cons_append, List.foldl_cons]

theorem interpret_idleTicks (p : Playback) (candidates : List ChunkId) (previousRoom : UInt16) :
    (p.interpret candidates previousRoom).2.interpreter.idleTicks =
      if (p.interpret candidates previousRoom).1.isSome then 0 else p.interpreter.idleTicks := by
  cases hfind : candidates.find? fun id => (p.library.store.get? id).any
      (·.isCandidate (p.vars.reroll p.interpreter.dice).1 previousRoom) with
  | none => simp [interpret, hfind]
  | some id => simp [interpret, hfind, Interpreter.enqueue]

theorem interpret_drainTicks (p : Playback) (candidates : List ChunkId) (previousRoom : UInt16) :
    (p.interpret candidates previousRoom).2.interpreter.drainTicks = p.interpreter.drainTicks := by
  unfold interpret
  dsimp only
  split <;> rfl

/-- One handling moves the counter as its mark says. -/
theorem idleTicks_handle (p : Playback) (e : Handling) : (p.handle e).interpreter.idleTicks =
    if (p.mark e).resets then 0 else p.interpreter.idleTicks + if (p.mark e).ticks then 1 else 0 := by
  cases e with
  | library l => rfl
  | clear => rfl
  | restore state => rfl
  | event e =>
      cases e with
      | enqueue id => rfl
      | release id => rfl
      | step s =>
          cases s with
          | tick situation => rfl
          | interpret candidates previousRoom => exact p.interpret_idleTicks candidates previousRoom
          | outside vars host => rfl

theorem drainTicks_handle (p : Playback) (e : Handling) :
    (p.handle e).interpreter.drainTicks = p.interpreter.drainTicks := by
  cases e with
  | library l => rfl
  | clear => rfl
  | restore state => rfl
  | event e =>
      cases e with
      | enqueue id => rfl
      | release id => rfl
      | step s =>
          cases s with
          | tick situation => rfl
          | interpret candidates previousRoom => exact p.interpret_drainTicks candidates previousRoom
          | outside vars host => rfl

/-- The counter counts, over any run that starts with it at 0. -/
theorem idleTicks_run (hstart : p.interpreter.idleTicks = 0) (run : List Handling) :
    (run.foldl handle p).interpreter.idleTicks = ticksSinceReset (marks run p) := by
  induction run using List.reverseRecOn with
  | nil => exact hstart
  | append_singleton run e ih =>
      rw [List.foldl_concat, marks_concat, ticksSinceReset_concat, idleTicks_handle, ih]

theorem drainTicks_run (p : Playback) (run : List Handling) :
    (run.foldl handle p).interpreter.drainTicks = p.interpreter.drainTicks := by
  induction run generalizing p with
  | nil => rfl
  | cons e run ih => rw [List.foldl_cons, ih, drainTicks_handle]

theorem isDrained_iff {seed : UInt64} {drainTicks : Nat} (hstart : p.interpreter = .ofSeed seed drainTicks)
    (run : List Handling) :
    (run.foldl handle p).interpreter.isDrained = true ↔ drainTicks ≤ ticksSinceReset (marks run p) := by
  have hidle : p.interpreter.idleTicks = 0 := by rw [hstart]; rfl
  have hdrain : p.interpreter.drainTicks = drainTicks := by rw [hstart]; rfl
  rw [Interpreter.isDrained, decide_eq_true_eq, drainTicks_run, idleTicks_run hidle, hdrain]

/-- A tick without a change moves nothing but counters, and another one like it would do the same. The scripts
are drained just if there have been enough ticks since the latest change, the latest new script and the
latest new queue. -/
theorem quiet_and_drained :
    (∀ (p : Playback) (situation : Situation), (p.tick situation).changed = false →
      p.tick situation = ⟨p.idle, [], false⟩ ∧
        ∀ (situation' : Situation) (host : Host),
          situation'.conversationActive = situation.conversationActive → p.host.SameAnswers host →
            ({ p.idle with host }.tick situation').changed = false) ∧
      ∀ (p : Playback) (seed : UInt64) (drainTicks : Nat), p.interpreter = .ofSeed seed drainTicks →
        ∀ run : List Handling, (run.foldl handle p).interpreter.isDrained = true ↔
          drainTicks ≤ ticksSinceReset (marks run p) := by
  refine ⟨fun p situation h => ?_, fun p seed drainTicks hstart run => isDrained_iff hstart run⟩
  have hquiet := quiet_of_changed h
  exact ⟨hquiet.tick_eq, fun situation' host hactive hhost => quiet_iff.1 (hquiet.idle hactive hhost)⟩

/-- A script that waits until a lamp is lit. -/
def vigil : Chunk :=
  .ofParts "0100.rom:9" [] [.ofKeyword "Wait" "Lamp"]

/-- With nobody to light it the scripts are drained after two ticks. -/
theorem quiet_and_drained_vigil :
    let dark : Playback := ofChunks [vigil] [] (.ofSeed 0 2) .empty (Host.silent false)
    let waiting := dark.happen (.enqueue ⟨0, 0⟩)
    let run : List Handling := [.event (.enqueue ⟨0, 0⟩), .event (.step (.tick arriving)),
      .event (.step (.tick arriving))]
    (waiting.tick arriving).changed = false ∧ waiting.tick arriving = ⟨waiting.idle, [], false⟩ ∧
      dark.interpreter = .ofSeed 0 2 ∧ (run.foldl handle dark).interpreter.isDrained = true := by
  intro dark waiting run
  have hquiet : (waiting.tick arriving).changed = false := by decide +kernel
  have henough : 2 ≤ ticksSinceReset (marks run dark) := by decide +kernel
  exact ⟨hquiet, (quiet_and_drained.1 waiting arriving hquiet).1, rfl,
    (quiet_and_drained.2 dark 0 2 rfl run).2 henough⟩

end Playback
end Script
end Adventure
