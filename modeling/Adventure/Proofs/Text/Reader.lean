import Mathlib.Data.List.Induction
import Adventure.Text.Reader
import Adventure.Proofs.Text.Blank
/-! The states of a reader. Whatever has been read, put back and read again, the lines are those of the text, each
with its arguments trimmed; only the place among them differs. -/
namespace Adventure.Text

/-! ### Lines -/

theorem Line.trim_args_of_ofPhysical? {n : Nat} {raw : List Char} {l : Line} (h : ofPhysical? n raw = some l) :
    trim l.args = l.args := by
  unfold ofPhysical? at h
  dsimp only at h
  split at h
  · cases h
  · cases h
    simp only [trim, String.toList_ofList, Chars.trim_trim]

theorem trim_args_of_mem_lines {text : String} {l : Line} (h : l ∈ lines text) : trim l.args = l.args := by
  obtain ⟨_, -, hline⟩ := List.mem_filterMap.1 h
  exact Line.trim_args_of_ofPhysical? hline

theorem Line.number_of_ofPhysical? {n : Nat} {raw : List Char} {l : Line} (h : ofPhysical? n raw = some l) :
    l.number = n := by
  unfold ofPhysical? at h
  dsimp only at h
  split at h
  · cases h
  · cases h
    rfl

theorem number_pos_of_mem_lines {text : String} {l : Line} (h : l ∈ lines text) : 0 < l.number := by
  obtain ⟨⟨raw, n⟩, hmem, hline⟩ := List.mem_filterMap.1 h
  rw [Line.number_of_ofPhysical? hline]
  exact List.le_snd_of_mem_zipIdx hmem

/-! ### Steps -/

namespace Reader

/-- What a parser does to its reader. -/
inductive Step where
  | next
  | putBack
  | rewind
  deriving DecidableEq, Repr

def step (r : Reader) : Step → Reader
  | .next => (r.next?.map Prod.snd).getD r
  | .putBack => r.putBack
  | .rewind => r.rewind

def run (r : Reader) (steps : List Step) : Reader :=
  steps.foldl step r

/-- The reader reads the same text as before. -/
structure SameText (r r' : Reader) : Prop where
  file : r'.file = r.file
  lines : r'.lines = r.lines

theorem SameText.refl (r : Reader) : r.SameText r :=
  ⟨rfl, rfl⟩

theorem SameText.trans {r r' r'' : Reader} (h : r.SameText r') (h' : r'.SameText r'') : r.SameText r'' :=
  ⟨h'.file.trans h.file, h'.lines.trans h.lines⟩

theorem fst_next? (r : Reader) : r.next?.map Prod.fst = r.after.head? := by
  unfold next?
  split
  · next hafter => simp [hafter]
  · next hafter => simp [hafter]

theorem sameText_next {r r' : Reader} {l : Line} (h : r.next? = some (l, r')) : r.SameText r' := by
  unfold next? at h
  split at h
  · cases h
  · next hafter => cases h; exact ⟨rfl, by simp [Reader.lines, hafter]⟩

theorem eq_of_next? {r r' : Reader} {l : Line} (h : r.next? = some (l, r')) :
    r'.file = r.file ∧ r.after = l :: r'.after := by
  unfold next? at h
  split at h
  · cases h
  · next hafter => cases h; exact ⟨rfl, hafter⟩

theorem after_of_next?_eq_none {r : Reader} (h : r.next? = none) : r.after = [] := by
  unfold next? at h
  split at h
  · next hafter => exact hafter
  · cases h

theorem putBack_next {r r' : Reader} {l : Line} (h : r.next? = some (l, r')) :
    r'.putBack = { r with fresh := false } := by
  unfold next? at h
  split at h
  · cases h
  · next hafter => cases h; rw [putBack, hafter]

/-- A line that was read can be put back. -/
theorem putBack_of_next? {r r' : Reader} {l : Line} (h : r.next? = some (l, r')) :
    r'.putBack.file = r.file ∧ r'.putBack.after = r.after := by
  rw [putBack_next h]
  exact ⟨rfl, rfl⟩

theorem next?_putBack {r r' : Reader} {l : Line} (h : r.next? = some (l, r')) : r'.putBack.next? = some (l, r') := by
  rw [putBack_next h, ← h]
  rfl

theorem sameText_putBack (r : Reader) : r.SameText r.putBack := by
  unfold putBack
  split
  · next hbefore => exact ⟨rfl, by simp [Reader.lines, hbefore]⟩
  · exact .refl r

theorem sameText_step (r : Reader) (s : Step) : r.SameText (r.step s) := by
  cases s with
  | next =>
      cases h : r.next? with
      | none => rw [step, h]; exact .refl r
      | some next => rw [step, h]; exact sameText_next h
  | putBack => exact r.sameText_putBack
  | rewind => exact ⟨rfl, rfl⟩

theorem sameText_run (r : Reader) (steps : List Step) : r.SameText (r.run steps) := by
  induction steps generalizing r with
  | nil => exact .refl r
  | cons s steps ih => exact (r.sameText_step s).trans (ih (r.step s))

/-- A state in which a parser of the text can be. -/
def Reads (file text : String) (r : Reader) : Prop :=
  ∃ steps, r = (ofText file text).run steps

theorem Reads.sameText {file text : String} {r : Reader} (h : Reads file text r) : (ofText file text).SameText r := by
  obtain ⟨steps, rfl⟩ := h
  exact sameText_run _ steps

theorem Reads.trim_args {file text : String} {r : Reader} (h : Reads file text r) :
    ∀ l ∈ r.after, trim l.args = l.args := by
  intro l hl
  have hmem : l ∈ r.lines := List.mem_append_right _ hl
  rw [h.sameText.lines] at hmem
  exact trim_args_of_mem_lines hmem

theorem Reads.number_pos {file text : String} {r : Reader} (h : Reads file text r) :
    ∀ l ∈ r.before, 0 < l.number := by
  intro l hl
  have hmem : l ∈ r.lines := List.mem_append_left _ (List.mem_reverse.2 hl)
  rw [h.sameText.lines] at hmem
  exact number_pos_of_mem_lines hmem

theorem Reads.step {file text : String} {r : Reader} (h : Reads file text r) (s : Step) :
    Reads file text (r.step s) := by
  obtain ⟨steps, rfl⟩ := h
  exact ⟨steps ++ [s], by rw [run, run, List.foldl_append, List.foldl_cons, List.foldl_nil]⟩

theorem Reads.next {file text : String} {r r' : Reader} {l : Line} (h : Reads file text r)
    (hnext : r.next? = some (l, r')) : Reads file text r' := by
  have hstep := h.step .next
  rwa [Reader.step, hnext] at hstep

theorem Reads.putBack {file text : String} {r : Reader} (h : Reads file text r) : Reads file text r.putBack :=
  h.step .putBack

/-- At the end of a text the latest line can be put back, if there is one. -/
theorem Reads.fresh_of_after {file text : String} {r : Reader} (h : Reads file text r) (hafter : r.after = []) :
    r.before = [] ∨ r.fresh = true := by
  obtain ⟨steps, rfl⟩ := h
  induction steps using List.reverseRecOn with
  | nil => exact .inl rfl
  | append_singleton steps s ih =>
      rw [run, List.foldl_append, List.foldl_cons, List.foldl_nil, ← run] at hafter ⊢
      generalize (ofText file text).run steps = r at ih hafter ⊢
      cases s with
      | next =>
          rw [Reader.step] at hafter ⊢
          unfold next? at hafter ⊢
          split at hafter
          · next hend => exact ih hend
          · exact .inr rfl
      | putBack =>
          rw [Reader.step] at hafter ⊢
          unfold Reader.putBack at hafter ⊢
          split at hafter
          · cases hafter
          · exact ih hafter
      | rewind => exact .inl rfl

theorem takeWhile_of_next?_eq_none {r : Reader} (p : Line → Bool) (h : r.next? = none) : r.takeWhile p = ([], r) := by
  obtain ⟨file, before, after, fresh⟩ := r
  cases after_of_next?_eq_none h
  simp [takeWhile]

theorem takeWhile_of_pos {p : Line → Bool} {r r' : Reader} {l : Line} (h : r.next? = some (l, r'))
    (hp : p l = true) : r.takeWhile p = (l :: (r'.takeWhile p).1, (r'.takeWhile p).2) := by
  unfold next? at h
  split at h
  · cases h
  · next hafter => cases h; simp [takeWhile, hafter, hp]

theorem takeWhile_of_neg {p : Line → Bool} {r r' : Reader} {l : Line} (h : r.next? = some (l, r'))
    (hp : p l = false) : r.takeWhile p = ([], r'.putBack) := by
  rw [putBack_next h]
  unfold next? at h
  split at h
  · cases h
  · next hafter => cases h; simp [takeWhile, hafter, hp]

/-- Reading on as long as a test holds is a run of reading one line after the other. -/
theorem exists_run_eq_takeWhile (p : Line → Bool) (r : Reader) : ∃ steps, (r.takeWhile p).2 = r.run steps := by
  obtain ⟨file, before, after, fresh⟩ := r
  induction after generalizing before fresh with
  | nil => exact ⟨[], by simp [takeWhile, run]⟩
  | cons l after ih =>
      by_cases hp : p l = true
      · obtain ⟨steps, hsteps⟩ := ih (l :: before) true
        refine ⟨.next :: steps, ?_⟩
        rw [run, List.foldl_cons]
        exact Eq.trans (by simp [takeWhile, hp]) hsteps
      · exact ⟨[.next, .putBack], by simp [takeWhile, hp, run, step, next?, putBack]⟩

theorem Reads.takeWhile {file text : String} {r : Reader} (h : Reads file text r) (p : Line → Bool) :
    Reads file text (r.takeWhile p).2 := by
  obtain ⟨steps, rfl⟩ := h
  obtain ⟨more, hmore⟩ := exists_run_eq_takeWhile p ((ofText file text).run steps)
  exact ⟨steps ++ more, by rw [hmore, run, run, run, List.foldl_append]⟩

end Reader
end Adventure.Text
