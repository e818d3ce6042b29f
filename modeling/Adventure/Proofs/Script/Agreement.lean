import Mathlib.Data.List.Forall2
import Adventure.Proofs.Script.Playing
import Adventure.Proofs.Script.Scene
/-! Two playbacks that hold the same chunks under the same signatures, though not under the same handles,
play alike: a tick of the one does what a tick of the other does. -/
namespace Adventure.Script

theorem isEmpty_eq_of_forall₂ {α β : Type} {R : α → β → Prop} {as : List α} {bs : List β}
    (h : List.Forall₂ R as bs) : as.isEmpty = bs.isEmpty := by
  cases h <;> rfl

/-! ### Waits -/

/-- The same wait, or two delays that are both over at `now`. -/
def Wait.Alike (now : Moment) (w₁ w₂ : Wait) : Prop :=
  w₁ = w₂ ∨ ∃ due₁ due₂, w₁ = .delay due₁ ∧ w₂ = .delay due₂ ∧ due₁ ≤ now ∧ due₂ ≤ now

theorem Wait.Alike.none_iff {now : Moment} {w₁ w₂ : Wait} (h : w₁.Alike now w₂) :
    w₁ = .none ↔ w₂ = .none := by
  rcases h with rfl | ⟨_, _, rfl, rfl, -, -⟩
  · rfl
  · exact ⟨nofun, nofun⟩

theorem Wait.Alike.isPending_eq {now : Moment} {w₁ w₂ : Wait} (h : w₁.Alike now w₂)
    (situation : Situation) {host : Host} (hnow : now ≤ host.now) :
    w₁.isPending situation host = w₂.isPending situation host := by
  rcases h with rfl | ⟨due₁, due₂, rfl, rfl, h₁, h₂⟩
  · rfl
  · have hended : ∀ {due : Moment}, due ≤ now → ¬host.now < due :=
      fun hdue => UInt64.not_lt.2 (UInt64.le_trans hdue hnow)
    simp [isPending, hended h₁, hended h₂]

theorem Wait.Alike.eq_of_isPending {now : Moment} {w₁ w₂ : Wait} (h : w₁.Alike now w₂)
    {situation : Situation} {host : Host} (hnow : now ≤ host.now)
    (hpending : w₁.isPending situation host = true) : w₁ = w₂ := by
  rcases h with rfl | ⟨due₁, due₂, rfl, rfl, h₁, -⟩
  · rfl
  · have hlt : host.now < due₁ := by simpa [isPending] using hpending
    exact absurd (UInt64.le_trans h₁ hnow) (UInt64.not_le.2 hlt)

/-! ### Libraries -/

namespace Library
variable {l l' l₁ l₂ : Library} {defs : List Chunk} {id id₁ id₂ : ChunkId} {sig : String}

/-- The handles of one signature in two libraries. -/
def SameScript (l₁ l₂ : Library) (id₁ id₂ : ChunkId) : Prop :=
  ∃ sig, l₁.live? sig = some id₁ ∧ l₂.live? sig = some id₂

/-- Libraries of the same chunks that stand at the same places. -/
structure Agrees (l₁ l₂ : Library) (defs : List Chunk) : Prop where
  left : l₁.Sound defs
  right : l₂.Sound defs
  chunk? : ∀ sig, l₁.chunk? sig = l₂.chunk? sig

theorem Sound.live?_inj (h : l.Sound defs) {sig' : String} (hsig : l.live? sig = some id)
    (hsig' : l.live? sig' = some id) : sig = sig' := by
  obtain ⟨c, hc, hcs⟩ := h.live (live?_eq_some_iff.1 hsig)
  obtain ⟨c', hc', hcs'⟩ := h.live (live?_eq_some_iff.1 hsig')
  cases hc.symm.trans hc'
  exact hcs.symm.trans hcs'

theorem Agrees.live?_iff (h : Agrees l₁ l₂ defs) (hsame : SameScript l₁ l₂ id₁ id₂) :
    l₁.live? sig = some id₁ ↔ l₂.live? sig = some id₂ := by
  obtain ⟨sig₀, h₁, h₂⟩ := hsame
  constructor
  · intro hsig
    rw [h.left.live?_inj hsig h₁]
    exact h₂
  · intro hsig
    rw [h.right.live?_inj hsig h₂]
    exact h₁

theorem Agrees.left_eq_iff (h : Agrees l₁ l₂ defs) {j₁ j₂ : ChunkId} (hsame : SameScript l₁ l₂ id₁ id₂)
    (hsame' : SameScript l₁ l₂ j₁ j₂) : id₁ = j₁ ↔ id₂ = j₂ := by
  obtain ⟨sig, h₁, h₂⟩ := hsame
  constructor
  · rintro rfl
    exact Option.some.inj (h₂.symm.trans ((h.live?_iff hsame').1 h₁))
  · rintro rfl
    exact Option.some.inj (h₁.symm.trans ((h.live?_iff hsame').2 h₂))

theorem Agrees.get?_eq (h : Agrees l₁ l₂ defs) (hsame : SameScript l₁ l₂ id₁ id₂) :
    l₁.store.get? id₁ = l₂.store.get? id₂ := by
  obtain ⟨sig, h₁, h₂⟩ := hsame
  have hchunk := h.chunk? sig
  rwa [chunk?_of_live (live?_eq_some_iff.1 h₁), chunk?_of_live (live?_eq_some_iff.1 h₂)] at hchunk

theorem chunk?_move (l : Library) (id : ChunkId) (f : Chunk → Chunk) (sig : String) :
    (l.move id f).chunk? sig = if l.live? sig = some id then (l.chunk? sig).map f else l.chunk? sig := by
  have hlive : (l.move id f).live? sig = l.live? sig := rfl
  rw [chunk?, chunk?, hlive]
  cases l.live? sig with
  | none => simp
  | some j =>
      rw [Option.bind_some, Option.bind_some, move, Store.get?_modify]
      by_cases hj : j = id <;> simp [hj]

theorem Agrees.move (h : Agrees l₁ l₂ defs) (hsame : SameScript l₁ l₂ id₁ id₂) {f : Chunk → Chunk}
    (hf : Chunk.IsMove f) : Agrees (l₁.move id₁ f) (l₂.move id₂ f) defs where
  left := h.left.move id₁ hf
  right := h.right.move id₂ hf
  chunk? sig := by
    rw [chunk?_move, chunk?_move, h.chunk?]
    simp only [h.live?_iff hsame]

theorem Agrees.live?_cases (h : Agrees l₁ l₂ defs) (sig : String) :
    l₁.live? sig = none ∧ l₂.live? sig = none ∨
      ∃ id₁ id₂, l₁.live? sig = some id₁ ∧ l₂.live? sig = some id₂ := by
  have hchunk : ∀ {l : Library}, l.Sound defs → ((l.chunk? sig).isSome ↔ (l.live? sig).isSome) := by
    intro l hl
    rw [Library.chunk?]
    cases hlive : l.live? sig with
    | none => rfl
    | some id =>
        obtain ⟨c, hc, -⟩ := hl.live (live?_eq_some_iff.1 hlive)
        simp [hc]
  have hsome := (hchunk h.left).symm.trans (h.chunk? sig ▸ hchunk h.right)
  cases h₁ : l₁.live? sig with
  | none => exact .inl ⟨rfl, by simpa [h₁] using hsome⟩
  | some id₁ =>
      rw [h₁] at hsome
      obtain ⟨id₂, h₂⟩ := Option.isSome_iff_exists.1 (hsome.1 rfl)
      exact .inr ⟨id₁, id₂, rfl, h₂⟩

end Library

/-! ### Turns and rounds -/

/-- The same script in two playbacks. -/
structure Queued.Alike (l₁ l₂ : Library) (now : Moment) (q₁ q₂ : Queued) : Prop where
  chunk : l₁.SameScript l₂ q₁.chunk q₂.chunk
  wait : q₁.wait.Alike now q₂.wait

/-- The same script with the same wait. -/
structure Queued.Same (l₁ l₂ : Library) (q₁ q₂ : Queued) : Prop where
  chunk : l₁.SameScript l₂ q₁.chunk q₂.chunk
  wait : q₁.wait = q₂.wait

structure Turn.Alike (l₁ l₂ : Library) (defs : List Chunk) (t₁ t₂ : Turn) : Prop where
  library : Library.Agrees { l₁ with store := t₁.store } { l₂ with store := t₂.store } defs
  script : t₁.script.Same l₁ l₂ t₂.script
  scene : t₁.scene = t₂.scene
  changed : t₁.changed = t₂.changed

variable {l₁ l₂ : Library} {defs : List Chunk} {now : Moment} {q₁ q₂ : Queued} {situation : Situation}
  {scene : Scene}

theorem Queued.Same.act (h : q₁.Same l₁ l₂ q₂) (hl : l₁.Agrees l₂ defs) (situation : Situation)
    (scene : Scene) (changed : Bool) :
    (q₁.act situation l₁.store scene changed).Alike l₁ l₂ defs
      (q₂.act situation l₂.store scene changed) := by
  unfold Queued.act
  rw [hl.get?_eq h.chunk]
  cases (l₂.store.get? q₂.chunk).bind Chunk.currentAction? with
  | none => exact ⟨hl, h, rfl, rfl⟩
  | some action =>
      dsimp only
      split
      · exact ⟨hl.move h.chunk .advance, h, rfl, rfl⟩
      · exact ⟨hl.move h.chunk .skipToEnd, h, rfl, rfl⟩
      · exact ⟨hl.move h.chunk .skipToEnd, h, rfl, rfl⟩
      · exact ⟨hl.move h.chunk .advance, ⟨h.chunk, rfl⟩, rfl, rfl⟩
      · exact ⟨hl, ⟨h.chunk, h.wait⟩, rfl, rfl⟩

theorem Queued.Alike.turn (h : q₁.Alike l₁ l₂ now q₂) (hl : l₁.Agrees l₂ defs)
    (situation : Situation) {scene : Scene} (hnow : now ≤ scene.host.now) :
    (q₁.turn situation l₁.store scene).Alike l₁ l₂ defs (q₂.turn situation l₂.store scene) := by
  unfold Queued.turn
  rw [← h.wait.isPending_eq situation hnow]
  by_cases hnone : q₁.wait = .none
  · have hnone₂ := h.wait.none_iff.1 hnone
    rw [if_pos hnone, if_pos hnone₂]
    have hsame : q₁.Same l₁ l₂ q₂ := ⟨h.chunk, hnone.trans hnone₂.symm⟩
    exact hsame.act hl situation scene false
  · rw [if_neg hnone, if_neg (h.wait.none_iff.not.1 hnone)]
    split
    · next hpending => exact ⟨hl, ⟨h.chunk, h.wait.eq_of_isPending hnow hpending⟩, rfl, rfl⟩
    · have hsame : Queued.Same l₁ l₂ { q₁ with wait := .none } { q₂ with wait := .none } := ⟨h.chunk, rfl⟩
      exact hsame.act hl situation scene true

structure Round.Alike (l₁ l₂ : Library) (defs : List Chunk) (r₁ r₂ : Round) : Prop where
  library : Library.Agrees { l₁ with store := r₁.store } { l₂ with store := r₂.store } defs
  queue : List.Forall₂ (Queued.Same l₁ l₂) r₁.queue r₂.queue
  scene : r₁.scene = r₂.scene
  changed : r₁.changed = r₂.changed

/-- The same scripts are done after the round. -/
theorem Round.Alike.isDone_eq {r₁ r₂ : Round} (h : r₁.Alike l₁ l₂ defs r₂) {q₁ q₂ : Queued}
    (hq : q₁.Same l₁ l₂ q₂) : q₁.isDone r₁.store = q₂.isDone r₂.store := by
  rw [Queued.isDone, Queued.isDone, hq.wait, h.library.get?_eq hq.chunk]

theorem playQueue_alike {queue₁ queue₂ : List Queued} {store₁ store₂ : Store}
    (hl : Library.Agrees { l₁ with store := store₁ } { l₂ with store := store₂ } defs)
    (hq : List.Forall₂ (Queued.Alike l₁ l₂ now) queue₁ queue₂) (hnow : now ≤ scene.host.now) :
    (playQueue situation queue₁ store₁ scene).Alike l₁ l₂ defs
      (playQueue situation queue₂ store₂ scene) := by
  induction hq generalizing store₁ store₂ scene with
  | nil => exact ⟨hl, .nil, rfl, rfl⟩
  | @cons q₁ q₂ queue₁ queue₂ hhead htail ih =>
      have hhead' : q₁.Alike { l₁ with store := store₁ } { l₂ with store := store₂ } now q₂ :=
        ⟨hhead.chunk, hhead.wait⟩
      obtain ⟨hlib, hscript, hscene, hchanged⟩ := hhead'.turn hl situation hnow
      have hnow' : now ≤ (q₁.turn situation store₁ scene).scene.host.now := by rwa [Queued.turn_now]
      have hround := ih hlib hnow'
      simp only [playQueue]
      rw [← hscene, ← hchanged]
      exact ⟨hround.library, .cons ⟨hscript.chunk, hscript.wait⟩ hround.queue, hround.scene,
        by rw [hround.changed]⟩

/-! ### Ticks -/

namespace Library
variable {ids₁ ids₂ : List ChunkId} {id₁ id₂ : ChunkId}

theorem mem_iff_of_forall₂ {queue₁ queue₂ : List Queued} (hl : l₁.Agrees l₂ defs)
    (h : List.Forall₂ (fun q₁ q₂ => l₁.SameScript l₂ q₁.chunk q₂.chunk) queue₁ queue₂)
    (hsame : l₁.SameScript l₂ id₁ id₂) :
    id₁ ∈ queue₁.map Queued.chunk ↔ id₂ ∈ queue₂.map Queued.chunk := by
  induction h with
  | nil => exact ⟨nofun, nofun⟩
  | cons hhead _ ih =>
      rw [List.map_cons, List.map_cons, List.mem_cons, List.mem_cons, ih, hl.left_eq_iff hsame hhead]

end Library

namespace Playback
variable {p₁ p₂ : Playback}

/-- Playbacks of the same scripts at the same places, whose waits are alike at `now`. -/
structure Alike (now : Moment) (p₁ p₂ : Playback) (defs : List Chunk) : Prop where
  library : p₁.library.Agrees p₂.library defs
  queue : List.Forall₂ (Queued.Alike p₁.library p₂.library now) p₁.interpreter.queue
    p₂.interpreter.queue
  bindings : p₁.interpreter.bindings = p₂.interpreter.bindings

structure Tick.Alike (t₁ t₂ : Tick) (defs : List Chunk) : Prop where
  library : t₁.playback.library.Agrees t₂.playback.library defs
  queue : List.Forall₂ (Queued.Same t₁.playback.library t₂.playback.library)
    t₁.playback.interpreter.queue t₂.playback.interpreter.queue
  bindings : t₁.playback.interpreter.bindings = t₂.playback.interpreter.bindings
  vars : t₁.playback.vars = t₂.playback.vars
  host : t₁.playback.host = t₂.playback.host
  requests : t₁.requests = t₂.requests
  changed : t₁.changed = t₂.changed

theorem Alike.round (h : Alike now p₁ p₂ defs) (hvars : p₁.vars = p₂.vars) (hhost : p₁.host = p₂.host)
    (hnow : now ≤ p₁.host.now) (situation : Situation) :
    (p₁.round situation).Alike p₁.library p₂.library defs (p₂.round situation) := by
  have hscene : p₁.openScene = p₂.openScene := by
    simp only [openScene, hvars, hhost, h.bindings]
  unfold Playback.round
  rw [← hscene]
  exact playQueue_alike h.library h.queue hnow

theorem Alike.queue_tick (h : Alike now p₁ p₂ defs) (hvars : p₁.vars = p₂.vars) (hhost : p₁.host = p₂.host)
    (hnow : now ≤ p₁.host.now) (situation : Situation) :
    List.Forall₂ (Queued.Same p₁.library p₂.library) (p₁.tick situation).playback.interpreter.queue
      (p₂.tick situation).playback.interpreter.queue := by
  have hround := h.round hvars hhost hnow situation
  rw [tick_queue, tick_queue]
  refine List.rel_filter (fun q₁ q₂ hq => ?_) hround.queue
  show (!_) = true ↔ (!_) = true
  rw [hround.isDone_eq hq]

theorem Alike.mem_ended_iff (h : Alike now p₁ p₂ defs) (hvars : p₁.vars = p₂.vars)
    (hhost : p₁.host = p₂.host) (hnow : now ≤ p₁.host.now) {situation : Situation} {id₁ id₂ : ChunkId}
    (hsame : p₁.library.SameScript p₂.library id₁ id₂) :
    id₁ ∈ p₁.ended situation ↔ id₂ ∈ p₂.ended situation := by
  have hremaining := h.queue_tick hvars hhost hnow situation
  rw [Playback.mem_ended_iff, Playback.mem_ended_iff,
    Library.mem_iff_of_forall₂ h.library (h.queue.imp fun _ _ hq => hq.chunk) hsame,
    Library.mem_iff_of_forall₂ h.library (hremaining.imp fun _ _ hq => hq.chunk) hsame]

theorem Alike.agrees_tick (h : Alike now p₁ p₂ defs) (hvars : p₁.vars = p₂.vars)
    (hhost : p₁.host = p₂.host) (hnow : now ≤ p₁.host.now) (situation : Situation) :
    (p₁.tick situation).playback.library.Agrees (p₂.tick situation).playback.library defs := by
  have hround := h.round hvars hhost hnow situation
  have hstore : ∀ {id₁ id₂}, p₁.library.SameScript p₂.library id₁ id₂ →
      (p₁.tick situation).playback.library.store.get? id₁ =
        (p₂.tick situation).playback.library.store.get? id₂ := by
    intro id₁ id₂ hsame
    rw [tick_store, tick_store, hround.library.get?_eq hsame]
    simp only [h.mem_ended_iff hvars hhost hnow hsame]
  refine ⟨sound_tick h.library.left situation, sound_tick h.library.right situation, fun sig => ?_⟩
  rw [(plays_tick p₁ situation).chunk?_eq h.library.left (sound_tick h.library.left situation),
    (plays_tick p₂ situation).chunk?_eq h.library.right (sound_tick h.library.right situation)]
  rcases h.library.live?_cases sig with ⟨h₁, h₂⟩ | ⟨id₁, id₂, h₁, h₂⟩
  · rw [h₁, h₂, Option.bind_none, Option.bind_none]
  · rw [h₁, h₂, Option.bind_some, Option.bind_some, hstore ⟨sig, h₁, h₂⟩]

theorem Alike.tick (h : Alike now p₁ p₂ defs) (hvars : p₁.vars = p₂.vars) (hhost : p₁.host = p₂.host)
    (hnow : now ≤ p₁.host.now) (situation : Situation) :
    (p₁.tick situation).Alike (p₂.tick situation) defs := by
  have hround := h.round hvars hhost hnow situation
  have hremaining := h.queue_tick hvars hhost hnow situation
  refine ⟨h.agrees_tick hvars hhost hnow situation, ?_, ?_, ?_, ?_, ?_, ?_⟩
  · -- The scripts that stay are live still.
    refine List.forall₂_iff_zip.2 ⟨hremaining.length_eq, fun {q₁ q₂} hmem => ?_⟩
    obtain ⟨⟨sig, h₁, h₂⟩, hwait⟩ := List.forall₂_zip hremaining hmem
    have hmem₁ := List.mem_map_of_mem (f := Queued.chunk) (List.of_mem_zip hmem).1
    have hmem₂ := List.mem_map_of_mem (f := Queued.chunk) (List.of_mem_zip hmem).2
    exact ⟨⟨sig, live?_tick h.library.left h₁ fun hin => (Playback.mem_ended_iff.1 hin).2 hmem₁,
      live?_tick h.library.right h₂ fun hin => (Playback.mem_ended_iff.1 hin).2 hmem₂⟩, hwait⟩
  · exact congrArg Scene.bindings hround.scene
  · exact congrArg Scene.vars hround.scene
  · exact congrArg Scene.host hround.scene
  · exact congrArg Scene.requests hround.scene
  · have hended : List.Forall₂ (Queued.Same p₁.library p₂.library)
        ((p₁.round situation).queue.filter (·.isDone (p₁.round situation).store))
        ((p₂.round situation).queue.filter (·.isDone (p₂.round situation).store)) := by
      refine List.rel_filter (fun q₁ q₂ hq => ?_) hround.queue
      show _ = true ↔ _ = true
      rw [hround.isDone_eq hq]
    rw [tick_changed, tick_changed, h.bindings, hhost, hround.changed, isEmpty_eq_of_forall₂ hended]

end Playback
end Adventure.Script
