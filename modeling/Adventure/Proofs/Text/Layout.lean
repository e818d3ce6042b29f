import Mathlib.Data.List.Forall2
import Mathlib.Data.List.Sort
import Adventure.Proofs.Text.Line
import Adventure.Proofs.Text.Reader
/-! Texts that read alike. The lines of a text ascend by the numbers of their physical lines; neither the way physical
lines end nor comments at their ends make a difference, and the lines can be written out and read again. -/
namespace Adventure.Text

/-! ### Physical lines -/

theorem no_lineFeed_of_mem_splitOnP {cs raw : List Char} (h : raw ∈ cs.splitOnP (· == '\n')) : '\n' ∉ raw := by
  induction cs generalizing raw with
  | nil =>
      rw [List.splitOnP_nil, List.mem_singleton] at h
      rw [h]
      exact List.not_mem_nil
  | cons c cs ih =>
      rw [List.splitOnP_cons_eq_if_modifyHead] at h
      split at h
      · rcases List.mem_cons.1 h with rfl | h
        · exact List.not_mem_nil
        · exact ih h
      · next hc =>
        obtain ⟨first, rest, hsplit⟩ := List.exists_cons_of_ne_nil (List.splitOnP_ne_nil (· == '\n') cs)
        rw [hsplit, List.modifyHead_cons] at h
        rw [hsplit] at ih
        rcases List.mem_cons.1 h with rfl | h
        · rw [List.mem_cons, not_or]
          exact ⟨fun heq => hc (beq_iff_eq.2 heq.symm), ih List.mem_cons_self⟩
        · exact ih (List.mem_cons_of_mem _ h)

theorem lines_eq (text : String) :
    lines text = ((physicalLines text).zipIdx 1).filterMap fun (raw, n) => Line.ofPhysical? n raw := rfl

theorem pairwise_number_lines (text : String) : (lines text).Pairwise fun a b => a.number < b.number := by
  have hnumbers : (((physicalLines text).zipIdx 1).map Prod.snd).Pairwise (· < ·) := by
    rw [List.zipIdx_map_snd]
    exact List.pairwise_lt_range'
  rw [lines_eq, List.pairwise_filterMap]
  refine (List.pairwise_map.1 hnumbers).imp fun {p q} hlt l hl l' hl' => ?_
  rw [Line.number_of_ofPhysical? hl, Line.number_of_ofPhysical? hl']
  exact hlt

/-- The lines of a text are those that stand on the physical line of their number. -/
theorem mem_lines_iff {text : String} {l : Line} : l ∈ lines text ↔
    0 < l.number ∧ ∃ raw, (physicalLines text)[l.number - 1]? = some raw ∧ l.Stands raw := by
  rw [lines_eq, List.mem_filterMap]
  constructor
  · rintro ⟨⟨raw, n⟩, hmem, hline⟩
    obtain ⟨rfl, hstands⟩ := Line.ofPhysical?_eq_some_iff.1 hline
    obtain ⟨hpos, hraw⟩ := List.mk_mem_zipIdx_iff_le_and_getElem?_sub.1 hmem
    exact ⟨hpos, raw, hraw, hstands⟩
  · rintro ⟨hpos, raw, hraw, hstands⟩
    exact ⟨(raw, l.number), List.mk_mem_zipIdx_iff_le_and_getElem?_sub.2 ⟨hpos, hraw⟩,
      Line.ofPhysical?_eq_some_iff.2 ⟨rfl, hstands⟩⟩

/-- Lines that ascend are determined by which lines they are. -/
theorem lines_eq_of_mem_iff {text other : String} (h : ∀ l, l ∈ lines other ↔ l ∈ lines text) :
    lines other = lines text := by
  have hasymm : Std.Antisymm fun a b : Line => a.number < b.number := ⟨fun _ _ hab hba => absurd hba (Nat.lt_asymm hab)⟩
  have hirrefl : Std.Irrefl fun a b : Line => a.number < b.number := ⟨fun _ => Nat.lt_irrefl _⟩
  exact (pairwise_number_lines other).eq_of_mem_iff (pairwise_number_lines text) h

/-! ### Line ends and comments -/

/-- A physical line ends here, with a line feed or with the text. -/
def AtLineEnd (cs : List Char) : Prop :=
  cs = [] ∨ ['\n'] <+: cs ∨ ['\r', '\n'] <+: cs

/-- The second text is the first with carriage returns in front of some line feeds, and with comments at the ends of
some physical lines. -/
inductive Relaid : List Char → List Char → Prop
  | done : Relaid [] []
  | same (c : Char) {cs ds : List Char} (h : Relaid cs ds) : Relaid (c :: cs) (c :: ds)
  | carriage {cs ds : List Char} (h : Relaid ('\n' :: cs) ds) : Relaid ('\n' :: cs) ('\r' :: ds)
  | comment {cs ds : List Char} (words : List Char) (hend : AtLineEnd cs) (hwords : '\n' ∉ words) (h : Relaid cs ds) :
      Relaid cs (';' :: (words ++ ds))

/-- Whatever stands before them, the physical lines have the same code. -/
def SameCode (raw other : List Char) : Prop :=
  ∀ before, Line.codeOf (before ++ raw) = Line.codeOf (before ++ other)

theorem SameCode.cons {raw other : List Char} (h : SameCode raw other) (c : Char) :
    SameCode (c :: raw) (c :: other) := by
  intro before
  have hboth := h (before ++ [c])
  rwa [List.append_assoc, List.append_assoc] at hboth

theorem ofPhysical?_same {raw other : List Char} (h : SameCode raw other) (n : Nat) :
    Line.ofPhysical? n other = Line.ofPhysical? n raw := by
  have hcode : Line.codeOf raw = Line.codeOf other := h []
  rw [Line.ofPhysical?_eq, Line.ofPhysical?_eq, hcode]

theorem takeWhile_append_cases (p : Char → Bool) (cs ds : List Char) :
    (cs ++ ds).takeWhile p = cs.takeWhile p ∨ cs.takeWhile p = cs ∧ (cs ++ ds).takeWhile p = cs ++ ds.takeWhile p := by
  by_cases h : ∀ c ∈ cs, p c = true
  · exact .inr ⟨List.takeWhile_eq_self_iff.2 h, List.takeWhile_append_of_pos h⟩
  · refine .inl ?_
    rw [List.takeWhile_append, if_neg]
    intro hlength
    exact h (List.takeWhile_eq_self_iff.1 ((List.takeWhile_prefix p).eq_of_length hlength))

theorem codeOf_append_blank {blanks : List Char} (h : ∀ c ∈ blanks, Chars.isBlank c = true) (raw : List Char) :
    Line.codeOf (raw ++ blanks) = Line.codeOf raw := by
  have hplain : ∀ c ∈ blanks, (c != ';') = true := fun c hc => bne_iff_ne.2 (Line.ne_semicolon_of_isBlank (h c hc))
  rw [Line.codeOf, Line.codeOf]
  rcases takeWhile_append_cases (· != ';') raw blanks with hcut | ⟨hraw, hall⟩
  · rw [hcut]
  · rw [hall, hraw, List.takeWhile_eq_self_iff.2 hplain, Chars.trim_append h]

theorem codeOf_append_comment (raw words : List Char) : Line.codeOf (raw ++ ';' :: words) = Line.codeOf raw := by
  rw [Line.codeOf, Line.codeOf]
  rcases takeWhile_append_cases (· != ';') raw (';' :: words) with hcut | ⟨hraw, hall⟩
  · rw [hcut]
  · rw [hall, hraw, List.takeWhile_cons_of_neg (by decide), List.append_nil]

theorem sameCode_carriage {raw : List Char} (h : SameCode [] raw) : SameCode [] ('\r' :: raw) := by
  intro before
  have hreturn : ∀ c ∈ ['\r'], Chars.isBlank c = true := List.forall_mem_singleton.2 rfl
  have hraw := h (before ++ ['\r'])
  rw [List.append_nil, codeOf_append_blank hreturn, List.append_assoc] at hraw
  rw [List.append_nil, hraw]
  rfl

theorem sameCode_comment {raw : List Char} (h : ∀ c ∈ raw, Chars.isBlank c = true) (words : List Char) :
    SameCode raw (';' :: words) := by
  intro before
  rw [codeOf_append_blank h, codeOf_append_comment]

theorem sameCode_modifyHead {raws others : List (List Char)} (h : List.Forall₂ SameCode raws others) (c : Char) :
    List.Forall₂ SameCode (raws.modifyHead (c :: ·)) (others.modifyHead (c :: ·)) := by
  cases h with
  | nil => exact .nil
  | cons hfirst hrest => exact .cons (hfirst.cons c) hrest

theorem splitOnP_append_left {p : Char → Bool} {cs : List Char} (h : ∀ c ∈ cs, p c = false) (ds : List Char) :
    (cs ++ ds).splitOnP p = (ds.splitOnP p).modifyHead (cs ++ ·) := by
  obtain ⟨first, rest, hsplit⟩ := List.exists_cons_of_ne_nil (List.splitOnP_ne_nil p ds)
  rw [hsplit, List.modifyHead_cons]
  induction cs with
  | nil => exact hsplit
  | cons c cs ih =>
      obtain ⟨hc, hcs⟩ := List.forall_mem_cons.1 h
      rw [List.cons_append, List.splitOnP_cons_eq_if_modifyHead, hc, if_neg Bool.false_ne_true, ih hcs,
        List.modifyHead_cons, List.cons_append]

theorem AtLineEnd.exists_blank {cs : List Char} (h : AtLineEnd cs) :
    ∃ raw rest, cs.splitOnP (· == '\n') = raw :: rest ∧ ∀ c ∈ raw, Chars.isBlank c = true := by
  rcases h with rfl | ⟨rest, rfl⟩ | ⟨rest, rfl⟩
  · exact ⟨[], [], List.splitOnP_nil, by simp⟩
  · exact ⟨[], _, rfl, by simp⟩
  · exact ⟨['\r'], _, rfl, List.forall_mem_singleton.2 rfl⟩

theorem Relaid.sameCode {cs ds : List Char} (h : Relaid cs ds) :
    List.Forall₂ SameCode (cs.splitOnP (· == '\n')) (ds.splitOnP (· == '\n')) := by
  induction h with
  | done => exact .cons (fun _ => rfl) .nil
  | @same c cs ds h ih =>
      rw [List.splitOnP_cons_eq_if_modifyHead, List.splitOnP_cons_eq_if_modifyHead]
      split
      · exact .cons (fun _ => rfl) ih
      · exact sameCode_modifyHead ih c
  | @carriage cs ds h ih =>
      obtain ⟨raw, rest, hsplit⟩ := List.exists_cons_of_ne_nil (List.splitOnP_ne_nil (· == '\n') ds)
      have hcs : ('\n' :: cs).splitOnP (· == '\n') = [] :: cs.splitOnP (· == '\n') := rfl
      have hds : ('\r' :: ds).splitOnP (· == '\n') = ('\r' :: raw) :: rest := by
        rw [List.splitOnP_cons_eq_if_modifyHead, if_neg (by decide), hsplit, List.modifyHead_cons]
      rw [hcs, hsplit] at ih
      rw [hcs, hds]
      cases ih with
      | cons hfirst hrest => exact .cons (sameCode_carriage hfirst) hrest
  | @comment cs ds words hend hwords h ih =>
      obtain ⟨raw, rest, hcs, hblank⟩ := hend.exists_blank
      obtain ⟨other, more, hds⟩ := List.exists_cons_of_ne_nil (List.splitOnP_ne_nil (· == '\n') ds)
      have hplain : ∀ c ∈ ';' :: words, (c == '\n') = false := by
        intro c hc
        rcases List.mem_cons.1 hc with rfl | hc
        · decide
        · exact beq_eq_false_iff_ne.2 fun heq => hwords (heq ▸ hc)
      rw [hcs, hds] at ih
      rw [← List.cons_append, splitOnP_append_left hplain, hcs, hds, List.modifyHead_cons]
      cases ih with
      | cons hfirst hrest => exact .cons (sameCode_comment hblank _) hrest

theorem filterMap_zipIdx_same {raws others : List (List Char)} (h : List.Forall₂ SameCode raws others) (n : Nat) :
    ((others.zipIdx n).filterMap fun (raw, n) => Line.ofPhysical? n raw) =
      (raws.zipIdx n).filterMap fun (raw, n) => Line.ofPhysical? n raw := by
  induction h generalizing n with
  | nil => rfl
  | cons hfirst _ ih => simp only [List.zipIdx_cons, List.filterMap_cons, ofPhysical?_same hfirst, ih]

theorem lines_of_relaid {text other : String} (h : Relaid text.toList other.toList) : lines other = lines text :=
  filterMap_zipIdx_same h.sameCode 1

/-! ### Writing lines out -/

/-- Each of the lines stands on the physical line of its number, its command and its arguments with a blank between
them, and the other physical lines are blank. -/
structure WritesOut (ls : List Line) (text : String) : Prop where
  written : ∀ l ∈ ls, ∃ c, (c = ' ' ∨ c = '\t') ∧
    (physicalLines text)[l.number - 1]? = some (l.command.toList ++ c :: l.args.toList)
  blank : ∀ i raw, (physicalLines text)[i]? = some raw → (∀ l ∈ ls, l.number ≠ i + 1) →
    ∀ c ∈ raw, Chars.isBlank c = true

/-- What is written on the physical line of the number. -/
def writtenLine (ls : List Line) (n : Nat) : List Char :=
  match ls.find? (·.number == n) with
  | some l => l.command.toList ++ ' ' :: l.args.toList
  | none => []

def lastNumber (ls : List Line) : Nat :=
  ls.foldr (fun l n => max l.number n) 0

/-- The text of lines that ascend. -/
def writeOut (ls : List Line) : String :=
  String.ofList (List.intercalate ['\n'] ((List.range (lastNumber ls + 1)).map fun i => writtenLine ls (i + 1)))

theorem Line.Stands.written {l : Line} {raw : List Char} (h : l.Stands raw) {c : Char} (hc : c = ' ' ∨ c = '\t') :
    l.Stands (l.command.toList ++ c :: l.args.toList) := by
  obtain ⟨-, code, -, -, -, hcode, -⟩ := h
  cases hcode with
  | alone hcommand hlast hargs =>
      refine ⟨[], _, [c], [], by simp, .alone hcommand hlast hargs, ?_, by simp, by simp [hargs]⟩
      exact List.forall_mem_singleton.2 (Line.isBlank_of_space_or_tab hc)
  | spaced hcommand _ _ hargs =>
      have hgap : ∀ d ∈ ([] : List Char), Chars.isBlank d = true := by simp
      exact ⟨[], _, [], [], by simp, .spaced hcommand hc hgap hargs, by simp, by simp, by simp⟩

theorem Line.Stands.not_blank {l : Line} {raw : List Char} (h : l.Stands raw) :
    ¬∀ c ∈ raw, Chars.isBlank c = true := by
  intro hblank
  have hcode : Line.codeOf raw = [] := Chars.trim_eq_nil_iff.2 fun c hc => hblank c (List.takeWhile_subset _ hc)
  exact h.codeOf.ne_nil hcode

theorem Line.Stands.unique {l m : Line} {raw : List Char} (h : l.Stands raw) (h' : m.Stands raw)
    (hnumber : l.number = m.number) : l = m :=
  Option.some.inj ((Line.ofPhysical?_eq_some_iff.2 ⟨hnumber, h⟩).symm.trans (Line.ofPhysical?_eq_some_iff.2 ⟨rfl, h'⟩))

/-- No two lines stand on one physical line. -/
theorem eq_of_number {text : String} {l m : Line} (hl : l ∈ lines text) (hm : m ∈ lines text)
    (h : l.number = m.number) : l = m := by
  obtain ⟨-, raw, hraw, hstands⟩ := mem_lines_iff.1 hl
  obtain ⟨-, other, hother, hstands'⟩ := mem_lines_iff.1 hm
  rw [← h, hraw, Option.some.injEq] at hother
  exact hstands.unique (hother ▸ hstands') h

theorem lines_of_writesOut {text other : String} (h : WritesOut (lines text) other) : lines other = lines text := by
  refine lines_eq_of_mem_iff fun l => ⟨fun hl => ?_, fun hl => ?_⟩
  · obtain ⟨hpos, raw, hraw, hstands⟩ := mem_lines_iff.1 hl
    by_cases hnumber : ∃ m ∈ lines text, m.number = l.number
    · obtain ⟨m, hm, heq⟩ := hnumber
      obtain ⟨-, before, -, hbefore⟩ := mem_lines_iff.1 hm
      obtain ⟨c, hc, hwritten⟩ := h.written m hm
      rw [heq, hraw, Option.some.injEq] at hwritten
      rw [hwritten] at hstands
      rwa [hstands.unique (hbefore.written hc) heq.symm]
    · refine absurd (h.blank _ raw hraw fun m hm heq => hnumber ⟨m, hm, ?_⟩) hstands.not_blank
      omega
  · obtain ⟨hpos, raw, -, hstands⟩ := mem_lines_iff.1 hl
    obtain ⟨c, hc, hwritten⟩ := h.written l hl
    exact mem_lines_iff.2 ⟨hpos, _, hwritten, hstands.written hc⟩

theorem Line.Stands.mem {l : Line} {raw : List Char} (h : l.Stands raw) {c : Char}
    (hc : c ∈ l.command.toList ∨ c ∈ l.args.toList) : c ∈ raw := by
  obtain ⟨before, code, after, comment, -, hcode, -, -, rfl⟩ := h
  have hmem : c ∈ code := by
    cases hcode with
    | alone _ _ hargs =>
        rw [hargs] at hc
        exact hc.resolve_right List.not_mem_nil
    | spaced =>
        simp only [List.mem_append, List.mem_cons]
        exact hc.imp_right fun hc => .inr (.inr hc)
  simp [hmem]

theorem no_lineFeed_of_mem_lines {text : String} {l : Line} (hl : l ∈ lines text) :
    '\n' ∉ l.command.toList ∧ '\n' ∉ l.args.toList := by
  obtain ⟨-, raw, hraw, hstands⟩ := mem_lines_iff.1 hl
  have hnone := no_lineFeed_of_mem_splitOnP (List.mem_of_getElem? hraw)
  exact ⟨fun h => hnone (hstands.mem (.inl h)), fun h => hnone (hstands.mem (.inr h))⟩

theorem no_lineFeed_writtenLine (text : String) (n : Nat) : '\n' ∉ writtenLine (lines text) n := by
  unfold writtenLine
  split
  · next l hl =>
    obtain ⟨hcommand, hargs⟩ := no_lineFeed_of_mem_lines (List.mem_of_find?_eq_some hl)
    simp [hcommand, hargs]
  · exact List.not_mem_nil

theorem physicalLines_writeOut (text : String) : physicalLines (writeOut (lines text)) =
    (List.range (lastNumber (lines text) + 1)).map fun i => writtenLine (lines text) (i + 1) := by
  rw [physicalLines, writeOut, String.toList_ofList, ← List.splitOn_eq_splitOnP]
  refine List.splitOn_intercalate '\n' (fun raw hraw => ?_) (by simp)
  obtain ⟨i, -, rfl⟩ := List.mem_map.1 hraw
  exact no_lineFeed_writtenLine text (i + 1)

theorem le_lastNumber {ls : List Line} {l : Line} (hl : l ∈ ls) : l.number ≤ lastNumber ls := by
  induction ls with
  | nil => cases hl
  | cons m ls ih =>
      rw [lastNumber, List.foldr_cons, ← lastNumber]
      rcases List.mem_cons.1 hl with rfl | hl
      · exact Nat.le_max_left _ _
      · exact (ih hl).trans (Nat.le_max_right _ _)

theorem writtenLine_of_mem {text : String} {l : Line} (hl : l ∈ lines text) :
    writtenLine (lines text) l.number = l.command.toList ++ ' ' :: l.args.toList := by
  unfold writtenLine
  split
  · next m hm =>
    have hfound := List.find?_some hm
    have hnumber : m.number = l.number := beq_iff_eq.1 hfound
    rw [eq_of_number (List.mem_of_find?_eq_some hm) hl hnumber]
  · next hnone => exact absurd (beq_self_eq_true l.number) (List.find?_eq_none.1 hnone l hl)

theorem writtenLine_of_ne {ls : List Line} {n : Nat} (h : ∀ l ∈ ls, l.number ≠ n) : writtenLine ls n = [] := by
  have hnone : ls.find? (·.number == n) = none :=
    List.find?_eq_none.2 fun l hl heq => h l hl (beq_iff_eq.1 heq)
  rw [writtenLine, hnone]

theorem writesOut_writeOut (text : String) : WritesOut (lines text) (writeOut (lines text)) := by
  constructor
  · intro l hl
    obtain ⟨hpos, -⟩ := mem_lines_iff.1 hl
    have hlast := le_lastNumber hl
    refine ⟨' ', .inl rfl, ?_⟩
    rw [physicalLines_writeOut, List.getElem?_map, List.getElem?_range (by omega), Option.map_some,
      Nat.sub_add_cancel hpos, writtenLine_of_mem hl]
  · intro i raw hraw hnone
    rw [physicalLines_writeOut, List.getElem?_map] at hraw
    obtain ⟨j, hj, rfl⟩ := Option.map_eq_some_iff.1 hraw
    rw [(List.getElem?_eq_some_iff.1 hj).2.symm.trans (List.getElem_range _), writtenLine_of_ne hnone]
    simp

/-- The lines of a text ascend, and they are those that stand on the physical lines of their numbers. They are the same
however line ends and comments are laid out, and when they are written out and read again. -/
theorem lines_layout (text : String) :
    (lines text).Pairwise (fun a b => a.number < b.number) ∧
      (∀ l, l ∈ lines text ↔
        0 < l.number ∧ ∃ raw, (physicalLines text)[l.number - 1]? = some raw ∧ l.Stands raw) ∧
      (∀ other, Relaid text.toList other.toList → lines other = lines text) ∧
      (∀ other, WritesOut (lines text) other → lines other = lines text) ∧
      WritesOut (lines text) (writeOut (lines text)) :=
  ⟨pairwise_number_lines text, fun _ => mem_lines_iff, fun _ => lines_of_relaid, fun _ => lines_of_writesOut,
    writesOut_writeOut text⟩

def note : String := "A b\nC;x"

def annotated : String := "A b;c\r\nC;x;y"

theorem relaid_note : Relaid note.toList annotated.toList :=
  .same 'A' <| .same ' ' <| .same 'b' <| .comment ['c'] (.inr (.inl ⟨_, rfl⟩)) (by decide) <|
    .carriage <| .same '\n' <| .same 'C' <| .same ';' <| .same 'x' <|
    .comment ['y'] (.inl rfl) (by decide) .done

theorem lines_layout_note :
    lines note = [⟨1, "A", "b"⟩, ⟨2, "C", ""⟩] ∧ lines annotated = lines note ∧
      lines (writeOut (lines note)) = lines note := by
  obtain ⟨-, -, hrelaid, hwritten, hout⟩ := lines_layout note
  exact ⟨by decide +kernel, hrelaid annotated relaid_note, hwritten _ hout⟩

end Adventure.Text
