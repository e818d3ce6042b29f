import Adventure.Proofs.Script.Calls
import Adventure.Proofs.Variables
/-! The writes of scripts to variables. To choose a script the random variables are rolled; in a tick the
bindings of stopped sounds write first and then the actions that are performed. -/
namespace Adventure.Script

open Variables (writeCount)

variable {situation : Situation} {queue : List Queued} {store : Store} {scene : Scene}

/-! ### Actions -/

/-- The names that an action writes to. -/
def Action.writtenNames (a : Action) : List String :=
  if a.kind = .changeVariables ∧ a.args.isEmpty = false then Variables.changedNames a.args else []

theorem Action.withArgument_vars {α : Type} (argument : Option α) {s : Scene} {act : α → Outcome × Scene}
    (h : ∀ value, (act value).2.vars = s.vars) : (withArgument argument s act).2.vars = s.vars := by
  cases argument with
  | none => rfl
  | some value => exact h value

theorem Action.perform_vars_of_ne {a : Action} (h : a.kind ≠ .changeVariables) (situation : Situation)
    (s : Scene) : (a.perform situation s).2.vars = s.vars := by
  unfold perform
  split
  case h_3 hkind => exact absurd hkind h
  case h_14 => split <;> rfl
  case h_18 => rfl
  case h_1 | h_8 =>
    refine withArgument_vars _ fun value => ?_
    dsimp only
    split <;> rfl
  all_goals exact withArgument_vars _ fun _ => rfl

theorem Action.writes_perform (situation : Situation) (a : Action) (s : Scene) :
    s.vars.Writes (writeCount a.writtenNames) (a.perform situation s).2.vars := by
  unfold writtenNames
  by_cases hkind : a.kind = .changeVariables
  · cases hargs : a.args.isEmpty with
    | true => simpa [perform, hkind, hargs, writeCount] using Variables.Writes.none
    | false => simpa [perform, hkind, hargs] using s.vars.writes_change a.args
  · rw [if_neg fun h => hkind h.1, perform_vars_of_ne hkind]
    exact .none

/-! ### Ticks -/

theorem writes_calls (situation : Situation) (calls : List Call) (scene : Scene) :
    scene.vars.Writes (writeCount (calls.flatMap (·.action.writtenNames)))
      (calls.foldl (fun s call => (call.action.perform situation s).2) scene).vars := by
  induction calls generalizing scene with
  | nil => exact .none
  | cons call calls ih =>
      rw [List.flatMap_cons, Variables.writeCount_append, List.foldl_cons]
      exact (call.action.writes_perform situation scene).trans (ih _)

namespace Playback

theorem writes_fireBindings (host : Host) (bindings : List SoundBinding) (vars : Variables) :
    vars.Writes (writeCount ((bindings.filter fun b => !host.isSoundPlaying b.id).map SoundBinding.name))
      (fireBindings host bindings vars) := by
  unfold fireBindings
  generalize bindings.filter (fun b => !host.isSoundPlaying b.id) = fired
  induction fired generalizing vars with
  | nil => exact .none
  | cons b fired ih =>
      rw [List.map_cons, ← List.singleton_append, Variables.writeCount_append, List.foldl_cons]
      exact (vars.writes_set b.name 1).trans (ih _)

/-- The names that a tick writes to. -/
def tickNames (p : Playback) (situation : Situation) : List String :=
  (p.interpreter.bindings.filter fun b => !p.host.isSoundPlaying b.id).map SoundBinding.name ++
    (calls situation p.interpreter.queue p.library.store p.openScene).flatMap (·.action.writtenNames)

theorem writes_tick (p : Playback) (situation : Situation) :
    p.vars.Writes (writeCount (p.tickNames situation)) (p.tick situation).playback.vars := by
  have hround : (p.tick situation).playback.vars = (p.round situation).scene.vars := rfl
  rw [hround, round, playQueue_scene, tickNames, Variables.writeCount_append]
  exact (writes_fireBindings p.host p.interpreter.bindings p.vars).trans (writes_calls situation _ p.openScene)

theorem writes_interpret (p : Playback) (candidates : List ChunkId) (previous : UInt16) :
    p.vars.Writes (writeCount (Variables.rolledNames p.vars.randoms))
      (p.interpret candidates previous).2.vars := by
  rw [interpret_vars]
  exact p.vars.writes_reroll p.interpreter.dice

end Playback
end Adventure.Script
