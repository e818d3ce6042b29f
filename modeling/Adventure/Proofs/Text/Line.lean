import Adventure.Text.Line
import Adventure.Proofs.Text.Blank
/-! Lines and the physical lines they stand on. A line is read from a physical line exactly if that line consists of
blanks, the command, blanks and the arguments, blanks and a comment, where only the command has to be there. -/
namespace Adventure.Text

/-- The physical lines of a text, without the line feeds between them. -/
def physicalLines (text : String) : List (List Char) :=
  text.toList.splitOnP (· == '\n')

namespace Line

/-- What stands on a physical line without its comment, and without the blanks at both ends. -/
def codeOf (raw : List Char) : List Char :=
  Chars.trim (raw.takeWhile (· != ';'))

/-- The word can be a command. -/
structure IsCommand (cs : List Char) : Prop where
  ne_nil : cs ≠ []
  first : ∀ c ∈ cs.head?, Chars.isBlank c = false
  plain : ∀ c ∈ cs, c ≠ ' ' ∧ c ≠ '\t' ∧ c ≠ ';'

/-- The text can be the arguments of a command. -/
structure IsArguments (cs : List Char) : Prop where
  ne_nil : cs ≠ []
  tight : Chars.Tight cs
  plain : ∀ c ∈ cs, c ≠ ';'

/-- The text is the line's command and its arguments, with blanks between them. The first of these is a space or tab;
others belong to the command. -/
inductive Code (l : Line) : List Char → Prop
  | alone (hcommand : IsCommand l.command.toList) (hlast : ∀ c ∈ l.command.toList.getLast?, Chars.isBlank c = false)
      (hargs : l.args.toList = []) : Code l l.command.toList
  | spaced {c : Char} {gap : List Char} (hcommand : IsCommand l.command.toList) (hc : c = ' ' ∨ c = '\t')
      (hgap : ∀ d ∈ gap, Chars.isBlank d = true) (hargs : IsArguments l.args.toList) :
      Code l (l.command.toList ++ c :: (gap ++ l.args.toList))

/-- The line stands on the physical line. -/
def Stands (l : Line) (raw : List Char) : Prop :=
  ∃ before code after comment, (∀ c ∈ before, Chars.isBlank c = true) ∧ l.Code code ∧
    (∀ c ∈ after, Chars.isBlank c = true) ∧ (∀ c ∈ comment.head?, c = ';') ∧
    raw = before ++ code ++ after ++ comment

variable {l : Line} {n : Nat} {raw code cs : List Char} {c : Char}

theorem isBlank_of_space_or_tab (h : c = ' ' ∨ c = '\t') : Chars.isBlank c = true := by
  rcases h with rfl | rfl <;> decide

theorem ne_semicolon_of_isBlank (h : Chars.isBlank c = true) : c ≠ ';' := by
  rintro rfl
  cases h

/-! ### What is written -/

theorem Code.ne_nil (h : l.Code code) : code ≠ [] := by
  cases h with
  | alone hcommand hlast hargs => exact hcommand.ne_nil
  | spaced hcommand hc hgap hargs => simp

theorem Code.tight (h : l.Code code) : Chars.Tight code := by
  cases h with
  | alone hcommand hlast hargs => exact ⟨hcommand.first, hlast⟩
  | @spaced c gap hcommand hc hgap hargs =>
      constructor
      · intro d hd
        rw [List.head?_append_of_ne_nil _ hcommand.ne_nil] at hd
        exact hcommand.first d hd
      · intro d hd
        rw [← List.cons_append, ← List.append_assoc, List.getLast?_append_of_ne_nil _ hargs.ne_nil] at hd
        exact hargs.tight.last d hd

theorem Code.no_comment (h : l.Code code) : ∀ c ∈ code, c ≠ ';' := by
  cases h with
  | alone hcommand hlast hargs => exact fun c hc => (hcommand.plain c hc).2.2
  | spaced hcommand hc hgap hargs =>
      intro d hd
      simp only [List.mem_append, List.mem_cons] at hd
      rcases hd with hd | rfl | hd | hd
      · exact (hcommand.plain d hd).2.2
      · exact ne_semicolon_of_isBlank (isBlank_of_space_or_tab hc)
      · exact ne_semicolon_of_isBlank (hgap d hd)
      · exact hargs.plain d hd

theorem takeWhile_no_comment {comment : List Char} (hcs : ∀ c ∈ cs, c ≠ ';') (hcomment : ∀ c ∈ comment.head?, c = ';') :
    (cs ++ comment).takeWhile (· != ';') = cs := by
  refine Chars.takeWhile_append_of_head? (fun c hc => bne_iff_ne.2 (hcs c hc)) fun c hc => ?_
  rw [hcomment c hc, bne_self_eq_false]

theorem Stands.codeOf (h : l.Stands raw) : l.Code (codeOf raw) := by
  obtain ⟨before, code, after, comment, hbefore, hcode, hafter, hcomment, rfl⟩ := h
  have hplain : ∀ c ∈ before ++ code ++ after, c ≠ ';' := by
    intro c hc
    simp only [List.mem_append] at hc
    rcases hc with (hc | hc) | hc
    · exact ne_semicolon_of_isBlank (hbefore c hc)
    · exact hcode.no_comment c hc
    · exact ne_semicolon_of_isBlank (hafter c hc)
  rw [Line.codeOf, takeWhile_no_comment hplain hcomment, Chars.trim_append hafter, Chars.trim_append_left hbefore,
    hcode.tight.trim_eq]
  exact hcode

theorem Code.stands (h : l.Code (Line.codeOf raw)) : l.Stands raw := by
  obtain ⟨before, after, hbefore, hafter, heq⟩ := Chars.exists_eq_append_trim (raw.takeWhile (· != ';'))
  refine ⟨before, Line.codeOf raw, after, raw.dropWhile (· != ';'), hbefore, h, hafter, fun c hc => ?_, ?_⟩
  · simpa using Chars.not_of_head?_dropWhile hc
  · rw [Line.codeOf, ← heq, List.takeWhile_append_dropWhile]

theorem stands_iff : l.Stands raw ↔ l.Code (Line.codeOf raw) :=
  ⟨Stands.codeOf, Code.stands⟩

/-! ### What is read -/

/-- A command goes on as long as this holds. -/
def inCommand (c : Char) : Bool :=
  c != ' ' && c != '\t'

theorem inCommand_eq_true_iff : inCommand c = true ↔ c ≠ ' ' ∧ c ≠ '\t' := by
  simp [inCommand]

theorem inCommand_eq_false_iff : inCommand c = false ↔ c = ' ' ∨ c = '\t' := by
  simp only [inCommand, Bool.and_eq_false_iff, bne_eq_false_iff_eq]

/-- The line with the command and the arguments that stand in the code. -/
def ofCode (n : Nat) (code : List Char) : Line where
  number := n
  command := String.ofList (code.takeWhile inCommand)
  args := String.ofList (Chars.trim (code.dropWhile inCommand))

theorem ofPhysical?_eq (n : Nat) (raw : List Char) :
    ofPhysical? n raw = if codeOf raw = [] then none else some (ofCode n (codeOf raw)) := by
  unfold ofPhysical?
  simp only [List.isEmpty_iff]
  rfl

theorem command_ofCode (n : Nat) (code : List Char) : (ofCode n code).command.toList = code.takeWhile inCommand :=
  String.toList_ofList

theorem args_ofCode (n : Nat) (code : List Char) :
    (ofCode n code).args.toList = Chars.trim (code.dropWhile inCommand) :=
  String.toList_ofList

theorem ofCode_of_code (h : l.Code code) : ofCode l.number code = l := by
  have hin : ∀ {cs : List Char}, IsCommand cs → ∀ d ∈ cs, inCommand d = true := fun hcs d hd =>
    inCommand_eq_true_iff.2 ⟨(hcs.plain d hd).1, (hcs.plain d hd).2.1⟩
  obtain ⟨number, command, args⟩ := l
  cases h with
  | alone hword hlast hargs =>
      have hempty : Chars.trim [] = [] := rfl
      rw [ofCode, List.takeWhile_eq_self_iff.2 (hin hword), List.dropWhile_eq_nil_iff.2 (hin hword), hempty, ← hargs,
        String.ofList_toList, String.ofList_toList]
  | @spaced c gap hword hc hgap hargs =>
      have hblank : ∀ d ∈ c :: gap, Chars.isBlank d = true :=
        List.forall_mem_cons.2 ⟨isBlank_of_space_or_tab hc, hgap⟩
      have hend : ∀ d ∈ (c :: (gap ++ args.toList)).head?, inCommand d = false := by
        rintro d ⟨⟩
        exact inCommand_eq_false_iff.2 hc
      rw [ofCode, Chars.takeWhile_append_of_head? (hin hword) hend, Chars.dropWhile_append_of_head? (hin hword) hend,
        ← List.cons_append, Chars.trim_append_left hblank, hargs.tight.trim_eq, String.ofList_toList,
        String.ofList_toList]

/-- What comes after a blank and does not end in one is cut into the blanks and the rest. -/
theorem exists_gap (hc : Chars.isBlank c = true) (hlast : ∀ d ∈ (c :: cs).getLast?, Chars.isBlank d = false) :
    ∃ gap args, (∀ d ∈ gap, Chars.isBlank d = true) ∧ args ≠ [] ∧ Chars.Tight args ∧ cs = gap ++ args ∧
      Chars.trim (c :: cs) = args := by
  have hsplit : (c :: cs.takeWhile Chars.isBlank) ++ cs.dropWhile Chars.isBlank = c :: cs := by
    rw [List.cons_append, List.takeWhile_append_dropWhile]
  have hgap : ∀ d ∈ c :: cs.takeWhile Chars.isBlank, Chars.isBlank d = true :=
    List.forall_mem_cons.2 ⟨hc, fun d => List.mem_takeWhile_imp⟩
  have hne : cs.dropWhile Chars.isBlank ≠ [] := by
    intro hnil
    rw [hnil, List.append_nil] at hsplit
    rw [hsplit] at hgap
    obtain ⟨d, hd⟩ : ∃ d, (c :: cs).getLast? = some d := ⟨_, List.getLast?_eq_some_getLast (List.cons_ne_nil c cs)⟩
    have hblank := hgap d (List.mem_of_getLast? hd)
    rw [hlast d hd] at hblank
    cases hblank
  have htight : Chars.Tight (cs.dropWhile Chars.isBlank) := by
    refine ⟨fun d hd => Chars.not_of_head?_dropWhile hd, fun d hd => hlast d ?_⟩
    rwa [← hsplit, List.getLast?_append_of_ne_nil _ hne]
  refine ⟨cs.takeWhile Chars.isBlank, cs.dropWhile Chars.isBlank, fun d => List.mem_takeWhile_imp, hne, htight,
    List.takeWhile_append_dropWhile.symm, ?_⟩
  rw [← hsplit, Chars.trim_append_left hgap, htight.trim_eq]

theorem isCommand_takeWhile (hne : code ≠ []) (htight : Chars.Tight code) (hplain : ∀ c ∈ code, c ≠ ';') :
    IsCommand (code.takeWhile inCommand) := by
  obtain ⟨first, rest, rfl⟩ := List.exists_cons_of_ne_nil hne
  have hfirst := htight.first first rfl
  have hin : inCommand first = true := by
    by_contra hout
    rw [isBlank_of_space_or_tab (inCommand_eq_false_iff.1 (eq_false_of_ne_true hout))] at hfirst
    cases hfirst
  rw [List.takeWhile_cons_of_pos hin]
  refine ⟨List.cons_ne_nil _ _, fun c hc => ?_, fun c hc => ?_⟩
  · rw [List.head?_cons, Option.mem_some_iff] at hc
    rwa [← hc]
  · rw [← List.takeWhile_cons_of_pos hin] at hc
    obtain ⟨hspace, htab⟩ := inCommand_eq_true_iff.1 (List.mem_takeWhile_imp hc)
    exact ⟨hspace, htab, hplain c (List.takeWhile_subset _ hc)⟩

theorem code_ofCode (hne : code ≠ []) (htight : Chars.Tight code) (hplain : ∀ c ∈ code, c ≠ ';') (n : Nat) :
    (ofCode n code).Code code := by
  have hcommand := isCommand_takeWhile hne htight hplain
  have hsplit : code.takeWhile inCommand ++ code.dropWhile inCommand = code := List.takeWhile_append_dropWhile
  rw [← command_ofCode n] at hcommand hsplit
  cases hdrop : code.dropWhile inCommand with
  | nil =>
      rw [hdrop, List.append_nil] at hsplit
      have hargs : (ofCode n code).args.toList = [] := by rw [args_ofCode, hdrop]; rfl
      have hcode := Code.alone hcommand (by rw [hsplit]; exact htight.last) hargs
      rwa [hsplit] at hcode
  | cons c cs =>
      rw [hdrop] at hsplit
      have hlast : ∀ d ∈ (c :: cs).getLast?, Chars.isBlank d = false := by
        intro d hd
        refine htight.last d ?_
        rwa [← hsplit, List.getLast?_append_of_ne_nil _ (List.cons_ne_nil c cs)]
      have hc : c = ' ' ∨ c = '\t' :=
        inCommand_eq_false_iff.1 (Chars.not_of_head?_dropWhile (by rw [hdrop]; rfl))
      obtain ⟨gap, args, hgap, hne', htight', rfl, htrim⟩ := exists_gap (isBlank_of_space_or_tab hc) hlast
      have hargs : (ofCode n code).args.toList = args := by rw [args_ofCode, hdrop, htrim]
      have hplain' : ∀ d ∈ args, d ≠ ';' := by
        intro d hd
        refine hplain d (List.dropWhile_subset inCommand ?_)
        rw [hdrop]
        exact List.mem_cons_of_mem c (List.mem_append_right gap hd)
      have hspaced := Code.spaced hcommand hc hgap (by rw [hargs]; exact ⟨hne', htight', hplain'⟩)
      rwa [hargs, hsplit] at hspaced

theorem codeOf_no_comment (raw : List Char) : ∀ c ∈ codeOf raw, c ≠ ';' := by
  intro c hc
  obtain ⟨before, after, -, -, heq⟩ := Chars.exists_eq_append_trim (raw.takeWhile (· != ';'))
  have hmem : c ∈ raw.takeWhile (· != ';') := by
    rw [heq]
    exact List.mem_append_left _ (List.mem_append_right _ hc)
  have hkept := List.mem_takeWhile_imp hmem
  exact bne_iff_ne.1 hkept

/-- Reading a physical line gives the line that stands on it. -/
theorem ofPhysical?_eq_some_iff : ofPhysical? n raw = some l ↔ l.number = n ∧ l.Stands raw := by
  rw [ofPhysical?_eq, stands_iff]
  constructor
  · intro h
    split at h
    · cases h
    · next hne =>
      cases h
      exact ⟨rfl, code_ofCode hne (Chars.tight_trim _) (codeOf_no_comment raw) n⟩
  · rintro ⟨rfl, hcode⟩
    rw [if_neg hcode.ne_nil, ofCode_of_code hcode]

end Line
end Adventure.Text
