import Adventure.Script.Playback
import Adventure.Proofs.Variables
/-! What scripts can do outside the library. An action makes one step, and what every step preserves is
preserved by a whole tick. -/
namespace Adventure.Script

/-- A request does not ask for room 0, which is no room. -/
def Request.Proper (r : Request) : Prop :=
  ∀ room position, r = .changeRoom room position → room ≠ 0

/-! ### Actions -/

/-- What a single action can do to a scene. -/
inductive Scene.Step (s : Scene) : Scene → Prop where
  | same : Step s s
  | host (host : Host) (hnow : host.now = s.host.now) : Step s { s with host }
  | change (text : String) : Step s { s with vars := s.vars.change text }
  | request {r : Request} (hr : r.Proper) : Step s (s.request r)
  | bind (binding : SoundBinding) : Step s { s with bindings := s.bindings ++ [binding] }

theorem Scene.step_tell (s : Scene) (event : HostEvent) : s.Step (s.tell event) :=
  .host (s.host.record event) rfl

theorem Scene.step_playSound (s : Scene) (name : String) (id : UInt32) :
    s.Step { s with host := s.host.playSound name id } := by
  refine .host _ ?_
  unfold Host.playSound
  dsimp only
  split <;> rfl

theorem Scene.step_startConversation (s : Scene) (name : String) :
    s.Step (s.request (.startConversation name)) :=
  .request fun _ _ h => nomatch h

theorem Scene.step_changeRoom (s : Scene) {room : UInt16} (h : room ≠ 0) (position : Option Position) :
    s.Step (s.request (.changeRoom room position)) := by
  refine .request fun _ _ heq => ?_
  cases heq
  exact h

theorem Action.withArgument_step {α : Type} (argument : Option α) {s : Scene} {act : α → Outcome × Scene}
    (h : ∀ value, s.Step (act value).2) : s.Step (withArgument argument s act).2 := by
  cases argument with
  | none => exact .same
  | some value => exact h value

theorem Action.perform_step (situation : Situation) (a : Action) (s : Scene) :
    s.Step (a.perform situation s).2 := by
  unfold perform
  split
  case h_1 =>
    refine withArgument_step _ fun (room, position) => ?_
    dsimp only
    split
    · exact s.step_tell _
    · next h => exact s.step_changeRoom (by simp_all) _
  case h_3 =>
    split
    · exact .same
    · exact .change a.args
  case h_6 => exact withArgument_step _ fun name => .host (s.host.playMovie name false) rfl
  case h_7 => exact withArgument_step _ fun name => .host (s.host.playMovie name true) rfl
  case h_8 =>
    refine withArgument_step _ fun (room, position) => ?_
    dsimp only
    split
    · exact s.step_tell _
    · exact .same
  case h_10 => exact withArgument_step _ fun name => s.step_startConversation name
  case h_11 => exact withArgument_step _ fun name => s.step_startConversation name
  case h_12 => exact withArgument_step _ fun (name, id) => s.step_playSound name id
  case h_13 => exact withArgument_step _ fun binding => .bind binding
  case h_14 => split <;> exact .same
  case h_16 => exact withArgument_step _ fun _ => .same
  case h_18 => exact .same
  all_goals exact withArgument_step _ fun _ => s.step_tell _

/-! ### Ticks -/

section Invariants
variable {P : Scene → Prop} (hstep : ∀ {s s'}, s.Step s' → P s → P s')
include hstep

theorem Queued.scene_act (situation : Situation) (q : Queued) (store : Store) {scene : Scene}
    (h : P scene) (changed : Bool) : P (q.act situation store scene changed).scene := by
  unfold act
  split
  · exact h
  · next action _ =>
    have hperform := hstep (action.perform_step situation scene) h
    split <;> simp_all

theorem Queued.scene_turn (situation : Situation) (q : Queued) (store : Store) {scene : Scene}
    (h : P scene) : P (q.turn situation store scene).scene := by
  unfold turn
  split
  · exact scene_act hstep situation q store h false
  · split
    · exact h
    · exact scene_act hstep situation _ store h true

theorem scene_playQueue (situation : Situation) (queue : List Queued) (store : Store) (scene : Scene)
    (h : P scene) : P (playQueue situation queue store scene).scene := by
  induction queue generalizing store scene with
  | nil => exact h
  | cons q queue ih => exact ih _ _ (Queued.scene_turn hstep situation q store h)

end Invariants

theorem Queued.turn_now (situation : Situation) (q : Queued) (store : Store) (scene : Scene) :
    (q.turn situation store scene).scene.host.now = scene.host.now := by
  refine scene_turn (P := fun s => s.host.now = scene.host.now) (fun hs h => ?_) situation q store rfl
  cases hs with
  | host _ hnow => exact hnow.trans h
  | _ => exact h

namespace Playback

theorem sameDeclarations_tick (p : Playback) (situation : Situation) :
    (p.tick situation).playback.vars.SameDeclarations p.vars := by
  have hfire : ∀ (bindings : List SoundBinding) (v : Variables),
      (bindings.foldl (fun v b => v.set b.name 1) v).SameDeclarations v := by
    intro bindings
    induction bindings with
    | nil => exact .refl
    | cons b bindings ih =>
        intro v
        rw [List.foldl_cons]
        exact (ih (v.set b.name 1)).trans (Variables.sameDeclarations_set v b.name 1)
  refine scene_playQueue (P := fun s => s.vars.SameDeclarations p.vars) (fun {s s'} hs h => ?_)
    situation p.interpreter.queue p.library.store p.openScene (hfire _ p.vars)
  cases hs with
  | change text => exact (Variables.sameDeclarations_change s.vars text).trans h
  | _ => exact h

theorem proper_tick (p : Playback) (situation : Situation) :
    ∀ r ∈ (p.tick situation).requests, r.Proper := by
  refine scene_playQueue (P := fun s => ∀ r ∈ s.requests, r.Proper) (fun {s s'} hs h => ?_)
    situation p.interpreter.queue p.library.store p.openScene (fun _ hr => nomatch hr)
  cases hs with
  | request hr =>
      intro r' hr'
      rcases List.mem_append.1 hr' with hr' | hr'
      · exact h r' hr'
      · exact List.mem_singleton.1 hr' ▸ hr
  | _ => exact h

end Playback
end Adventure.Script
