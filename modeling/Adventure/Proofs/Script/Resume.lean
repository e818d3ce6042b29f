import Adventure.Proofs.Script.Agreement
/-! Saving an interpreter and going on elsewhere. The saved queue and lines are enough to go on with fresh
copies of the chunks as if nothing had happened. -/
namespace Adventure

/-! ### Delays -/

namespace Moment

theorem after_remaining {now due : Moment} (h : now ≤ due) : Moment.after now (Moment.remaining now due) = due := by
  have hle := UInt64.le_iff_toNat_le.1 h
  have hdiff : (due - now).toNat = due.toNat - now.toNat := UInt64.toNat_sub_of_le _ _ h
  have hlast : (last - (due - now)).toNat = last.toNat - (due - now).toNat := by
    refine UInt64.toNat_sub_of_le _ _ (UInt64.le_iff_toNat_le.2 ?_)
    have := due.toNat_lt
    simp [last]
    omega
  rw [remaining, if_pos h, after, if_pos]
  · rw [UInt64.add_comm, UInt64.sub_add_cancel]
  · rw [UInt64.le_iff_toNat_le, hlast, hdiff]
    have := due.toNat_lt
    simp [last]
    omega

theorem after_zero (now : Moment) : Moment.after now 0 = now := by
  have hle : now ≤ last := by
    rw [UInt64.le_iff_toNat_le]
    have := now.toNat_lt
    simp [last]
    omega
  rw [after, UInt64.sub_zero, if_pos hle, UInt64.add_zero]

theorem remaining_of_lt {now due : Moment} (h : due < now) : Moment.remaining now due = 0 := by
  rw [remaining, if_neg (UInt64.not_le.2 h)]

theorem remaining_after_remaining (now due : Moment) :
    Moment.remaining now (Moment.after now (Moment.remaining now due)) = Moment.remaining now due := by
  by_cases h : now ≤ due
  · rw [after_remaining h]
  · rw [remaining_of_lt (UInt64.not_le.1 h), after_zero, remaining, if_pos (UInt64.le_refl now),
      UInt64.sub_self]

end Moment

namespace Script

theorem Wait.save_ofSaved (now : Moment) (w : Wait) :
    (Wait.ofSaved now (w.save now).2 (w.save now).1).save now = w.save now := by
  cases w with
  | delay due => simp [Wait.save, Wait.ofSaved, Moment.remaining_after_remaining]
  | _ => rfl

theorem Wait.alike_ofSaved (now : Moment) (w : Wait) :
    w.Alike now (Wait.ofSaved now (w.save now).2 (w.save now).1) := by
  cases w with
  | delay due =>
      by_cases h : now ≤ due
      · exact .inl (by simp [Wait.save, Wait.ofSaved, Moment.after_remaining h])
      · have hlt := UInt64.not_le.1 h
        refine .inr ⟨due, now, rfl, ?_, UInt64.le_of_lt hlt, UInt64.le_refl now⟩
        simp [Wait.save, Wait.ofSaved, Moment.remaining_of_lt hlt, Moment.after_zero]
  | _ => exact .inl rfl

section Restored
variable {defs cs : List Chunk}

/-! ### Saving again -/

/-- A saved script is queued again, unless the line of its chunk marks it as removed. -/
theorem live?_resumed {l : Library} (h : l.Sound defs) (hcs : ∀ d ∈ cs, d.fresh = d)
    (hnodup : (cs.map Chunk.signature).Nodup) (hsub : defs ⊆ cs) {sig : String} {c : Chunk}
    (hc : l.chunk? sig = some c) :
    if (sig, removedLine) ∈ l.lines then (l.resumed cs).2.live? sig = none
    else ∃ id c', (l.resumed cs).2.live? sig = some id ∧ (l.resumed cs).2.store.get? id = some c' ∧
      c'.signature = sig := by
  have hmem : (sig, removedLine) ∈ l.lines ↔ c.position.toUInt32 = removedLine := by
    rw [Library.mem_lines_iff, Library.lineOf?_of_chunk? hc, Option.some.injEq]
    exact and_iff_left (by decide)
  have hsound := l.resumed_sound hcs hnodup
  have hback := h.resumed_chunk? hcs hnodup (hsub (h.of_chunk? hc).1) hc
  simp only [hmem]
  split
  · next hrem =>
    rw [if_pos hrem] at hback
    cases hlive : (l.resumed cs).2.live? sig with
    | none => rfl
    | some id =>
        obtain ⟨c', hc', -⟩ := hsound.live (Library.live?_eq_some_iff.1 hlive)
        rw [Library.chunk?_of_live (Library.live?_eq_some_iff.1 hlive), hc'] at hback
        cases hback
  · next hne =>
    rw [if_neg hne] at hback
    obtain ⟨id, hlive, hc'⟩ := Library.chunk?_eq_some_iff.1 hback
    exact ⟨id, _, Library.live?_eq_some_iff.2 hlive, hc', (hsound.of_chunk? hback).2.1⟩

theorem Interpreter.save_restore {l : Library} (h : l.Sound defs) (hcs : ∀ d ∈ cs, d.fresh = d)
    (hnodup : (cs.map Chunk.signature).Nodup) (hsub : defs ⊆ cs) (i fresh : Interpreter)
    (hready : ∀ q ∈ i.queue, ∀ c, l.store.get? q.chunk = some c → c.retired = false) (now : Moment) :
    (fresh.restore (i.save l.store now) (l.resumed cs).2 now).save (l.resumed cs).2.store now =
      { i.save l.store now with
        queue := (i.save l.store now).queue.filter fun saved => (saved.signature, removedLine) ∉ l.lines } := by
  simp only [save, restore, InterpreterState.mk.injEq, and_true]
  generalize i.queue = queue at hready ⊢
  induction queue with
  | nil => rfl
  | cons q queue ih =>
      have hrest := ih fun q' hq' => hready q' (List.mem_cons_of_mem q hq')
      cases hc : l.store.get? q.chunk with
      | none =>
          rw [List.filterMap_cons_none (by rw [hc, Option.map_none])]
          exact hrest
      | some c =>
          have hchunk := h.chunk?_of_stored hc (hready q List.mem_cons_self c hc)
          have hlive := live?_resumed h hcs hnodup hsub hchunk
          rw [List.filterMap_cons_some (by rw [hc, Option.map_some])]
          split at hlive
          · next hmem =>
            rw [List.filterMap_cons_none (by rw [hlive, Option.map_none]), hrest,
              List.filter_cons_of_neg (by simpa using hmem)]
          · next hnot =>
            obtain ⟨id, c', hlive, hc', hsig⟩ := hlive
            rw [List.filterMap_cons_some (by rw [hlive, Option.map_some]),
              List.filterMap_cons_some (by rw [hc', Option.map_some]), hrest,
              List.filter_cons_of_pos (by simpa using hnot)]
            simp only [hsig, Wait.save_ofSaved]

end Restored

namespace Playback
variable {p p₁ p₂ : Playback} {cs cs' defs : List Chunk} {now : Moment}

/-! ### What can be seen -/

/-- What scripts find in a tick. -/
structure TickInput where
  situation : Situation
  vars : Variables
  host : Host

/-- What can be seen of the scripts after a tick. -/
structure TickView where
  vars : Variables
  host : Host
  requests : List Request
  changed : Bool
  /-- The signatures of the queued chunks with their waits. -/
  queue : List (Option String × Wait)
  bindings : List SoundBinding
  /-- The places of the chunks that are not retired. -/
  stands : String → Nat → Prop

def Tick.view (t : Tick) : TickView where
  vars := t.playback.vars
  host := t.playback.host
  requests := t.requests
  changed := t.changed
  queue := t.playback.interpreter.queue.map fun q =>
    ((t.playback.library.store.get? q.chunk).map Chunk.signature, q.wait)
  bindings := t.playback.interpreter.bindings
  stands sig place := ∃ id c, t.playback.library.store.get? id = some c ∧ c.retired = false ∧
    c.signature = sig ∧ c.position = place

/-- The views of ticks that follow on each other. Between them the variables and the world may change. -/
def views : List TickInput → Playback → List TickView
  | [], _ => []
  | input :: inputs, p =>
    let t := { p with vars := input.vars, host := input.host }.tick input.situation
    t.view :: views inputs t.playback

theorem stands_iff {l : Library} (h : l.Sound defs) {sig : String} {place : Nat} :
    (∃ id c, l.store.get? id = some c ∧ c.retired = false ∧ c.signature = sig ∧ c.position = place) ↔
      ∃ c, l.chunk? sig = some c ∧ c.position = place := by
  constructor
  · rintro ⟨id, c, hc, hr, rfl, hplace⟩
    exact ⟨c, h.chunk?_of_stored hc hr, hplace⟩
  · rintro ⟨c, hchunk, hplace⟩
    obtain ⟨id, -, hc⟩ := Library.chunk?_eq_some_iff.1 hchunk
    obtain ⟨-, hsig, hr, -⟩ := h.of_chunk? hchunk
    exact ⟨id, c, hc, hr, hsig, hplace⟩

theorem Tick.Alike.view_eq {t₁ t₂ : Tick} (h : t₁.Alike t₂ defs) : t₁.view = t₂.view := by
  have hqueue : t₁.view.queue = t₂.view.queue := by
    have hq := h.queue
    unfold Tick.view
    dsimp only
    generalize t₁.playback.interpreter.queue = queue₁ at hq ⊢
    generalize t₂.playback.interpreter.queue = queue₂ at hq ⊢
    induction hq with
    | nil => rfl
    | cons hhead _ ih => rw [List.map_cons, List.map_cons, ih, h.library.get?_eq hhead.chunk, hhead.wait]
  have hstands : t₁.view.stands = t₂.view.stands := by
    funext sig place
    refine propext ((stands_iff h.library.left).trans (Iff.trans ?_ (stands_iff h.library.right).symm))
    rw [h.library.chunk? sig]
  rw [TickView.mk.injEq]
  exact ⟨h.vars, h.host, h.requests, h.changed, hqueue, h.bindings, hstands⟩

theorem Tick.Alike.playback {t₁ t₂ : Tick} (h : t₁.Alike t₂ defs) (now : Moment) :
    Playback.Alike now t₁.playback t₂.playback defs where
  library := h.library
  queue := h.queue.imp fun _ _ hq => ⟨hq.chunk, .inl hq.wait⟩
  bindings := h.bindings

/-- Playbacks that are alike look alike from then on, if the clock does not run back before the first
tick. -/
theorem Alike.views_eq {inputs : List TickInput} (h : Alike now p₁ p₂ defs)
    (hclock : ∀ input ∈ inputs.head?, now ≤ input.host.now) : views inputs p₁ = views inputs p₂ := by
  induction inputs generalizing now p₁ p₂ with
  | nil => rfl
  | cons input inputs ih =>
      have hinput : Alike now { p₁ with vars := input.vars, host := input.host }
          { p₂ with vars := input.vars, host := input.host } defs := ⟨h.library, h.queue, h.bindings⟩
      have htick := hinput.tick rfl rfl (hclock input rfl) input.situation
      simp only [views]
      rw [htick.view_eq, ih (htick.playback 0) fun next _ => UInt64.le_iff_toNat_le.2 (by simp)]

/-! ### Histories -/

/-- What may happen to the scripts. -/
inductive Step where
  | interpret (candidates : List ChunkId) (previousRoom : UInt16)
  | tick (situation : Situation)
  /-- The variables and the world change from outside. -/
  | outside (vars : Variables) (host : Host)

def perform (p : Playback) : Step → Playback
  | .interpret candidates previousRoom => (p.interpret candidates previousRoom).2
  | .tick situation => (p.tick situation).playback
  | .outside vars host => { p with vars, host }

/-- The chunks are in the library or marked as removed, and the queued ones may go on. -/
structure Loaded (p : Playback) (cs : List Chunk) : Prop where
  sound : p.library.Sound cs
  held : ∃ ids, p.library.Holds ids cs
  ready : p.Ready
  stored : ∀ q ∈ p.interpreter.queue, ∃ c, p.library.store.get? q.chunk = some c

theorem Loaded.interpret (h : p.Loaded cs) (candidates : List ChunkId) (previous : UInt16) :
    (p.interpret candidates previous).2.Loaded cs where
  sound := by rw [interpret_library]; exact h.sound
  held := by rw [interpret_library]; exact h.held
  ready := h.ready.interpret candidates previous
  stored q hq := by
    rw [interpret_library]
    rw [interpret_queue, List.mem_append] at hq
    rcases hq with hq | hq
    · exact h.stored q hq
    · obtain ⟨id, hid, rfl⟩ := List.mem_map.1 hq
      obtain ⟨-, c, hc, -⟩ := candidate_of_interpret (Option.mem_toList.1 hid)
      exact ⟨c, hc⟩

theorem Loaded.tick (h : p.Loaded cs) (situation : Situation) :
    (p.tick situation).playback.Loaded cs where
  sound := sound_tick h.sound situation
  held := h.held.imp fun _ hids => hids.plays (plays_tick p situation)
  ready := h.ready.tick situation
  stored q hq := by
    obtain ⟨q₀, hq₀, heq⟩ :=
      List.mem_map.1 ((p.tick_queue_sublist situation).subset (List.mem_map_of_mem hq))
    obtain ⟨c, hc⟩ := h.stored q₀ hq₀
    obtain ⟨c', hc', -⟩ := (plays_tick p situation).stored (heq ▸ hc)
    exact ⟨c', hc'⟩

theorem Loaded.perform (h : p.Loaded cs) (step : Step) : (p.perform step).Loaded cs := by
  cases step with
  | interpret candidates previousRoom => exact h.interpret candidates previousRoom
  | tick situation => exact h.tick situation
  | outside vars host => exact ⟨h.sound, h.held, h.ready, h.stored⟩

theorem Loaded.foldl_perform (h : p.Loaded cs) (steps : List Step) : (steps.foldl Playback.perform p).Loaded cs := by
  induction steps generalizing p with
  | nil => exact h
  | cons step steps ih => exact ih (h.perform step)

/-- A playback of freshly taken chunks, some of which may have a line waiting for them. -/
def ofChunks (cs : List Chunk) (lines : List (String × UInt32)) (interpreter : Interpreter)
    (vars : Variables) (host : Host) : Playback where
  library := (Library.adoptAll cs (Library.empty.restoreLines lines)).2
  interpreter
  vars
  host

theorem Loaded.ofChunks (hcs : ∀ c ∈ cs, c.fresh = c) (hnodup : (cs.map Chunk.signature).Nodup)
    (lines : List (String × UInt32)) {i : Interpreter} (hi : i.queue = []) (vars : Variables)
    (host : Host) : (ofChunks cs lines i vars host).Loaded cs where
  sound := (Library.Sound.ofLines lines).adoptAll hcs hnodup
  held := ⟨_, Library.holds_adoptAll (Library.Sound.ofLines lines).store hcs hnodup⟩
  ready q hq := by
    have hnil : q ∈ i.queue := hq
    rw [hi] at hnil
    cases hnil
  stored q hq := by
    have hnil : q ∈ i.queue := hq
    rw [hi] at hnil
    cases hnil

/-! ### Going on elsewhere -/

/-- The playback that a saved one goes on in: the lines are restored, the chunks taken afresh, and the
queue is restored into an interpreter. -/
def resumed (p : Playback) (cs : List Chunk) (fresh : Interpreter) : Playback where
  library := (p.library.resumed cs).2
  interpreter := fresh.restore (p.interpreter.save p.library.store p.host.now) (p.library.resumed cs).2
    p.host.now
  vars := p.vars
  host := p.host

theorem Loaded.resumed_agrees (h : p.Loaded cs) (hperm : cs'.Perm cs)
    (hshort : ∀ c ∈ cs, c.actions.length < removedLine.toNat) :
    p.library.Agrees (p.library.resumed cs').2 cs := by
  have hcs' : ∀ d ∈ cs', d.fresh = d := fun d hd => h.sound.fresh d (hperm.subset hd)
  have hnodup : (cs'.map Chunk.signature).Nodup := ((hperm.map _).nodup_iff).2 h.sound.distinct
  have hsound := p.library.resumed_sound hcs' hnodup
  refine ⟨h.sound, hsound.perm hperm, fun sig => ?_⟩
  cases hchunk : p.library.chunk? sig with
  | some c =>
      have hmem := (h.sound.of_chunk? hchunk).1
      exact (h.sound.resumed_chunk?_of_short hcs' hnodup (hperm.mem_iff.2 hmem) hchunk
        (hshort c.fresh hmem)).symm
  | none =>
      -- Without a chunk here the signature is marked as removed, or it is none of the chunks.
      cases hback : (p.library.resumed cs').2.chunk? sig with
      | none => rfl
      | some c =>
          obtain ⟨hmem, rfl, -, -⟩ := hsound.of_chunk? hback
          obtain ⟨ids, hids⟩ := h.held
          rcases hids.known c.fresh (hperm.mem_iff.1 hmem) with hrem | ⟨id, hid, hlive⟩
          · rw [← Chunk.fresh_signature, Library.resumed_chunk? _ hcs' hnodup hmem,
              if_pos (Library.lineOf?_of_removed hrem)] at hback
            cases hback
          · obtain ⟨c', hc', -⟩ := h.sound.live hlive
            rw [← Chunk.fresh_signature, Library.chunk?_of_live hlive, hc'] at hchunk
            cases hchunk

theorem Loaded.resumed_alike (h : p.Loaded cs) (hperm : cs'.Perm cs)
    (hshort : ∀ c ∈ cs, c.actions.length < removedLine.toNat) (fresh : Interpreter) :
    Alike p.host.now p (p.resumed cs' fresh) cs := by
  have hagrees := h.resumed_agrees hperm hshort
  refine ⟨hagrees, ?_, rfl⟩
  have hstored := h.stored
  have hready := h.ready
  unfold Ready at hready
  simp only [resumed, Interpreter.restore, Interpreter.save]
  generalize p.interpreter.queue = queue at hstored hready ⊢
  induction queue with
  | nil => exact .nil
  | cons q queue ih =>
      obtain ⟨c, hc⟩ := hstored q List.mem_cons_self
      have hlive := Library.live?_eq_some_iff.2
        (h.sound.live_of_stored hc (hready q List.mem_cons_self c hc))
      rcases hagrees.live?_cases c.signature with ⟨hnone, -⟩ | ⟨_, id, -, hid⟩
      · rw [hlive] at hnone
        cases hnone
      · rw [List.filterMap_cons_some (by rw [hc, Option.map_some]),
          List.filterMap_cons_some (by rw [hid, Option.map_some])]
        exact .cons ⟨⟨c.signature, hlive, hid⟩, q.wait.alike_ofSaved p.host.now⟩
          (ih (fun q' hq' => hstored q' (List.mem_cons_of_mem q hq'))
            fun q' hq' => hready q' (List.mem_cons_of_mem q hq'))

/-- A run that is saved and goes on elsewhere cannot be told from one that goes on where it was. Its
chunks are taken afresh in any order, by any interpreter that has nothing to do. -/
theorem views_resumed (hcs : ∀ c ∈ cs, c.fresh = c) (hnodup : (cs.map Chunk.signature).Nodup)
    (hshort : ∀ c ∈ cs, c.actions.length < removedLine.toNat) (hperm : cs'.Perm cs)
    (lines : List (String × UInt32)) {i : Interpreter} (hi : i.queue = []) (vars : Variables)
    (host : Host) (steps : List Step) (fresh : Interpreter) (inputs : List TickInput) :
    let p := steps.foldl perform (ofChunks cs lines i vars host)
    (∀ input ∈ inputs.head?, p.host.now ≤ input.host.now) →
      views inputs (p.resumed cs' fresh) = views inputs p := by
  intro p hclock
  have hloaded := (Loaded.ofChunks hcs hnodup lines hi vars host).foldl_perform steps
  exact ((hloaded.resumed_alike hperm hshort fresh).views_eq hclock).symm

/-- A script that waits before its only write. -/
def delayedWrite : Chunk :=
  .ofParts "0100.rom:3" [] [.ofKeyword "Delay" "20", .ofKeyword "Set" "A"]

theorem views_resumed_delayedWrite :
    let now := { Host.silent false with now := 5 }
    let later := { Host.silent false with now := 25 }
    let situation : Situation := ⟨⟨1, 0⟩, false⟩
    let p := [.interpret [⟨0, 0⟩] 0, .tick situation, .outside .empty now].foldl perform
      (ofChunks [delayedWrite] [] (.ofSeed 0 10) .empty (Host.silent false))
    delayedWrite.fresh = delayedWrite ∧ delayedWrite.actions.length < removedLine.toNat ∧
      p.host.now ≤ later.now ∧
      views [⟨situation, .empty, later⟩] (p.resumed [delayedWrite] (.ofSeed 1 10)) =
        views [⟨situation, .empty, later⟩] p := by
  intro now later situation p
  have hfresh : delayedWrite.fresh = delayedWrite := rfl
  have hshort : delayedWrite.actions.length < removedLine.toNat := by decide
  have hclock : p.host.now ≤ later.now := by decide
  have hcs : ∀ c ∈ [delayedWrite], c.fresh = c := by simpa using hfresh
  have hnodup : ([delayedWrite].map Chunk.signature).Nodup := List.nodup_singleton _
  refine ⟨hfresh, hshort, hclock, ?_⟩
  refine views_resumed hcs hnodup (by simpa using hshort) (List.Perm.refl _) [] rfl .empty
    (Host.silent false) _ (.ofSeed 1 10) _ ?_
  intro input hinput
  cases hinput
  exact hclock

end Playback
end Script
end Adventure
