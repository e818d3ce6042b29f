import Adventure.Proofs.Script.Completion
/-! Actions that come to nothing. Whether an action is malformed can be told from the action alone. A malformed
action is invalid in every scene; a well-formed one stops its chunk if the actor came from another room, or holds
while variables have other values. In all of these cases the scene is as it was before. -/
namespace Adventure.Script.Action

variable {situation : Situation} {a : Action} {s : Scene}

/-- The kind is known, and the arguments are of the form that it asks for. -/
def WellFormed (a : Action) : Prop :=
  match a.kind with
  | .moveActor | .positionIfCameFrom => a.placement?.isSome = true
  | .setCursor | .playMidi | .playAnimation | .playAnimationWait => a.name?.isSome = true
  | .paletteChange | .screenEffect | .startConversation | .startConversationWait => a.name?.isSome = true
  | .changeVariables => a.args.isEmpty = false
  | .speak => a.speech?.isSome = true
  | .playSound => a.sound?.isSome = true
  | .bindSoundVariable => a.soundBinding?.isSome = true
  | .delay => a.milliseconds?.isSome = true
  | .requestRedraw => a.rect?.isSome = true
  | .waitUntil => True
  | .unknown => False

/-- The action ends with this outcome and is not done. -/
inductive Lapses (situation : Situation) (a : Action) (s : Scene) : Outcome → Prop where
  | malformed (hform : ¬a.WellFormed) : Lapses situation a s .invalid
  | elsewhere {room : UInt16} {position : Position} (hkind : a.kind = .positionIfCameFrom)
      (hplace : a.placement? = some (room, position)) (hne : situation.rooms.previous ≠ room) :
      Lapses situation a s .stop
  | unmet (hkind : a.kind = .waitUntil) (hunmet : s.vars.meets a.args = false) : Lapses situation a s .hold

/-- An action of another kind that is well formed is done. -/
theorem not_lapses (hform : a.WellFormed) (hplace : a.kind ≠ .positionIfCameFrom) (hwait : a.kind ≠ .waitUntil)
    (outcome : Outcome) : ¬a.Lapses situation s outcome := by
  intro h
  cases h with
  | malformed hnot => exact hnot hform
  | elsewhere hkind _ _ => exact hplace hkind
  | unmet hkind _ => exact hwait hkind

/-- An action either lapses and leaves the scene alone, or it is done. -/
inductive Ends (situation : Situation) (a : Action) (s : Scene) : Outcome × Scene → Prop where
  | lapses {outcome : Outcome} (hlapses : a.Lapses situation s outcome) : Ends situation a s (outcome, s)
  | done {outcome : Outcome} {s' : Scene} (hcompletes : outcome.Completes)
      (hnot : ∀ o, ¬a.Lapses situation s o) : Ends situation a s (outcome, s')

theorem ends_withArgument {α : Type} {argument : Option α} {act : α → Outcome × Scene}
    (hform : a.WellFormed ↔ argument.isSome = true)
    (hact : ∀ value, argument = some value → a.Ends situation s (act value)) :
    a.Ends situation s (withArgument argument s act) := by
  cases argument with
  | none => exact .lapses (.malformed (by simp [hform]))
  | some value => exact hact value rfl

theorem ends_perform (situation : Situation) (a : Action) (s : Scene) :
    a.Ends situation s (a.perform situation s) := by
  unfold perform
  split
  case h_1 hkind =>
    refine ends_withArgument (by simp [WellFormed, hkind]) fun value hvalue => ?_
    have hnot : ∀ o, ¬a.Lapses situation s o :=
      not_lapses (by simp [WellFormed, hkind, hvalue]) (by simp [hkind]) (by simp [hkind])
    dsimp only
    split <;> exact .done trivial hnot
  case h_3 hkind =>
    split
    · next hempty => exact .lapses (.malformed (by simp [WellFormed, hkind, hempty]))
    · next hargs =>
      exact .done trivial (not_lapses (by simpa [WellFormed, hkind] using hargs) (by simp [hkind]) (by simp [hkind]))
  case h_8 hkind =>
    refine ends_withArgument (by simp [WellFormed, hkind]) fun (room, position) hplace => ?_
    dsimp only
    split
    · next hroom =>
      refine .done trivial fun outcome h => ?_
      cases h with
      | malformed hnot => simp [WellFormed, hkind, hplace] at hnot
      | elsewhere _ hplace' hne =>
          cases hplace.symm.trans hplace'
          exact hne (by simpa using hroom)
      | unmet hwait _ => cases hkind.symm.trans hwait
    · next hroom => exact .lapses (.elsewhere hkind hplace (by simpa using hroom))
  case h_14 hkind =>
    split
    · next hmet =>
      refine .done trivial fun outcome h => ?_
      cases h with
      | malformed hnot => simp [WellFormed, hkind] at hnot
      | elsewhere hplace _ _ => cases hkind.symm.trans hplace
      | unmet _ hunmet => cases hmet.symm.trans hunmet
    · next hunmet => exact .lapses (.unmet hkind (by simpa using hunmet))
  case h_18 hkind => exact .lapses (.malformed (by simp [WellFormed, hkind]))
  all_goals
    rename_i hkind
    refine ends_withArgument (by simp [WellFormed, hkind]) fun value hvalue => ?_
    exact .done trivial (not_lapses (by simp [WellFormed, hkind, hvalue]) (by simp [hkind]) (by simp [hkind]))

theorem Lapses.unique {outcome outcome' : Outcome} (h : a.Lapses situation s outcome)
    (h' : a.Lapses situation s outcome') : outcome = outcome' := by
  cases h with
  | malformed hform =>
      cases h' with
      | malformed _ => rfl
      | elsewhere hkind hplace _ => simp [WellFormed, hkind, hplace] at hform
      | unmet hkind _ => simp [WellFormed, hkind] at hform
  | elsewhere hkind hplace _ =>
      cases h' with
      | malformed hform => simp [WellFormed, hkind, hplace] at hform
      | elsewhere _ _ _ => rfl
      | unmet hkind' _ => cases hkind.symm.trans hkind'
  | unmet hkind _ =>
      cases h' with
      | malformed hform => simp [WellFormed, hkind] at hform
      | elsewhere hkind' _ _ => cases hkind.symm.trans hkind'
      | unmet _ _ => rfl

theorem Ends.lapses_iff {result : Outcome × Scene} (h : a.Ends situation s result) {outcome : Outcome}
    (hnot : ¬outcome.Completes) : result.1 = outcome ↔ a.Lapses situation s outcome := by
  cases h with
  | lapses hlapses => exact ⟨fun heq => heq ▸ hlapses, hlapses.unique⟩
  | done hcompletes hnone => exact iff_of_false (fun heq => hnot (heq ▸ hcompletes)) (hnone outcome)

theorem Ends.scene_eq {result : Outcome × Scene} (h : a.Ends situation s result) (hnot : ¬result.1.Completes) :
    result.2 = s := by
  cases h with
  | lapses _ => rfl
  | done hcompletes _ => exact absurd hcompletes hnot

/-- An action that does not advance has no effect: the variables, the host, the requests and the bindings are those
before it. It is invalid just if it is malformed, whatever the scene. -/
theorem perform_unchanged (situation : Situation) (a : Action) (s : Scene) :
    ∀ outcome ∈ [Outcome.invalid, .stop, .hold],
      ((a.perform situation s).1 = outcome ↔ a.Lapses situation s outcome) ∧
        ((a.perform situation s).1 = outcome → (a.perform situation s).2 = s) := by
  intro outcome hmem
  have hnot : ¬outcome.Completes := by
    revert outcome
    decide
  have hends := a.ends_perform situation s
  exact ⟨hends.lapses_iff hnot, fun heq => hends.scene_eq (heq ▸ hnot)⟩

/-- A scene in which something has been written, told, asked for and bound. -/
def midday : Scene where
  vars := Variables.empty.set "Locked" 1
  host := (Host.silent false).playSound "chime" 3
  requests := [.startConversation "porter"]
  bindings := [⟨3, "Chimed"⟩]

theorem perform_unchanged_midday :
    let there := Playback.arriving
    let redraw := Action.ofKeyword "Redraw" "0(4000000000,1) 0 0 0"
    let welcome := Action.ofKeyword "IfFrom" "99 1 2"
    let door := Action.ofKeyword "Wait" "!Locked"
    ((redraw.perform there midday).1 = .invalid ∧ (redraw.perform there midday).2 = midday) ∧
      ((welcome.perform there midday).1 = .stop ∧ (welcome.perform there midday).2 = midday) ∧
      ((door.perform there midday).1 = .hold ∧ (door.perform there midday).2 = midday) := by
  intro there redraw welcome door
  have hinvalid : (redraw.perform there midday).1 = .invalid := by decide +kernel
  have hstop : (welcome.perform there midday).1 = .stop := by decide +kernel
  have hhold : (door.perform there midday).1 = .hold := by decide +kernel
  exact ⟨⟨hinvalid, (perform_unchanged there redraw midday .invalid (by decide)).2 hinvalid⟩,
    ⟨hstop, (perform_unchanged there welcome midday .stop (by decide)).2 hstop⟩,
    ⟨hhold, (perform_unchanged there door midday .hold (by decide)).2 hhold⟩⟩

end Adventure.Script.Action
