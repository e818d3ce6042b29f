import Adventure.Script.Chunk
/-! How far a chunk has come. Playing moves the position of a chunk and may retire it; everything else
stays as it was read. -/
namespace Adventure.Script.Chunk

/-- The chunk as it was read. -/
def fresh (c : Chunk) : Chunk :=
  { c with position := 0, retired := false }

/-- The position is one of an action or the end. -/
def InRange (c : Chunk) : Prop :=
  c.position ≤ c.actions.length

@[simp] theorem fresh_signature (c : Chunk) : c.fresh.signature = c.signature := rfl
@[simp] theorem fresh_actions (c : Chunk) : c.fresh.actions = c.actions := rfl
@[simp] theorem fresh_once (c : Chunk) : c.fresh.once = c.once := rfl
@[simp] theorem fresh_fresh (c : Chunk) : c.fresh.fresh = c.fresh := rfl

theorem signature_of_fresh_eq {c d : Chunk} (h : c.fresh = d.fresh) : c.signature = d.signature :=
  show c.fresh.signature = d.fresh.signature by rw [h]

theorem actions_of_fresh_eq {c d : Chunk} (h : c.fresh = d.fresh) : c.actions = d.actions :=
  show c.fresh.actions = d.fresh.actions by rw [h]

theorem once_of_fresh_eq {c d : Chunk} (h : c.fresh = d.fresh) : c.once = d.once :=
  show c.fresh.once = d.fresh.once by rw [h]

theorem fresh_of_unmoved {c : Chunk} (hp : c.position = 0) (hr : c.retired = false) : c.fresh = c := by
  rw [fresh, ← hp, ← hr]

theorem position_of_fresh {c : Chunk} (h : c.fresh = c) : c.position = 0 :=
  h ▸ rfl

theorem retired_of_fresh {c : Chunk} (h : c.fresh = c) : c.retired = false :=
  h ▸ rfl

/-! ### Moves -/

/-- A change of the position only, to a place in the chunk. -/
structure IsMove (f : Chunk → Chunk) : Prop where
  fresh : ∀ c, (f c).fresh = c.fresh
  retired : ∀ c, (f c).retired = c.retired
  inRange : ∀ c, c.InRange → (f c).InRange

theorem IsMove.signature {f : Chunk → Chunk} (hf : IsMove f) (c : Chunk) :
    (f c).signature = c.signature :=
  signature_of_fresh_eq (hf.fresh c)

theorem IsMove.advance : IsMove advance where
  fresh c := by unfold Chunk.advance; split <;> rfl
  retired c := by unfold Chunk.advance; split <;> rfl
  inRange c hc := by
    unfold Chunk.advance
    split
    · exact hc
    · next h =>
      have hlt : ¬c.actions.length ≤ c.position := by simpa [isFinished] using h
      exact Nat.not_le.1 hlt

theorem IsMove.skipToEnd : IsMove skipToEnd where
  fresh _ := rfl
  retired _ := rfl
  inRange c _ := Nat.le_refl c.actions.length

theorem IsMove.rewind : IsMove rewind where
  fresh _ := rfl
  retired _ := rfl
  inRange _ _ := Nat.zero_le _

theorem IsMove.seek (target : Nat) : IsMove (seek · target) where
  fresh _ := rfl
  retired _ := rfl
  inRange _ _ := Nat.min_le_right _ _

theorem seek_of_fresh_eq {c d : Chunk} (h : c.fresh = d) (hr : c.retired = false) (hin : c.InRange) :
    d.seek c.position = c := by
  subst h
  have hmin : min c.position c.actions.length = c.position := Nat.min_eq_left hin
  rw [seek, fresh_actions, hmin, fresh, ← hr]

theorem seek_zero {d : Chunk} (h : d.fresh = d) : d.seek 0 = d := by
  have hseek := seek_of_fresh_eq h (retired_of_fresh h) (by rw [InRange, position_of_fresh h]; exact Nat.zero_le _)
  rwa [position_of_fresh h] at hseek

/-! ### The end of a run -/

/-- What becomes of a chunk when its last queued run is over. -/
def finish (c : Chunk) : Chunk :=
  if c.once then c.retire else c.rewind

@[simp] theorem finish_fresh (c : Chunk) : c.finish.fresh = c.fresh := by
  unfold finish; split <;> rfl

@[simp] theorem finish_signature (c : Chunk) : c.finish.signature = c.signature :=
  signature_of_fresh_eq c.finish_fresh

theorem finish_finish (c : Chunk) : c.finish.finish = c.finish := by
  by_cases h : c.once <;> simp [finish, h, retire, rewind]

theorem position_finish {c : Chunk} (h : c.finish.retired = false) : c.finish.position = 0 := by
  unfold finish at h ⊢
  split at h
  · cases h
  · next hc => simp [hc, rewind]

end Adventure.Script.Chunk
