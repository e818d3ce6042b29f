import Adventure.Text.Arguments
import Adventure.Proofs.Text.Blank
/-! The pieces of an argument text. A space or tab ends a piece unless parentheses are open, so a text with none open at
its end splits on its own, whatever comes after the next space. A piece splits into itself. -/
namespace Adventure.Chars

/-- A piece ends with a space or tab. -/
def IsGap (c : Char) : Prop :=
  c = ' ' ∨ c = '\t'

instance : DecidablePred IsGap := fun _ => inferInstanceAs (Decidable (_ ∨ _))

/-- The number of open parentheses after one more character; a closing one too many opens nothing. -/
def nextDepth (depth : Nat) (c : Char) : Nat :=
  if c = '(' then depth + 1 else if c = ')' then depth - 1 else depth

def depthAfter (depth : Nat) (cs : List Char) : Nat :=
  cs.foldl nextDepth depth

/-- No piece ends in the text, if `depth` parentheses are open before it. -/
def Whole : Nat → List Char → Prop
  | _, [] => True
  | depth, c :: cs => ¬(depth = 0 ∧ IsGap c) ∧ Whole (nextDepth depth c) cs

structure IsPiece (cs : List Char) : Prop where
  ne_nil : cs ≠ []
  whole : Whole 0 cs
  last : ∀ c ∈ cs.getLast?, c ≠ ','

variable {depth : Nat} {c : Char} {cs ds piece acc commas : List Char}

/-! ### Depth -/

theorem nextDepth_of_ne (hopen : c ≠ '(') (hclose : c ≠ ')') : nextDepth depth c = depth := by
  rw [nextDepth, if_neg hopen, if_neg hclose]

theorem nextDepth_gap (hc : IsGap c) : nextDepth depth c = depth := by
  rcases hc with rfl | rfl
  · exact nextDepth_of_ne (by decide) (by decide)
  · exact nextDepth_of_ne (by decide) (by decide)

theorem depthAfter_cons (depth : Nat) (c : Char) (cs : List Char) :
    depthAfter depth (c :: cs) = depthAfter (nextDepth depth c) cs := rfl

theorem depthAfter_append (depth : Nat) (cs ds : List Char) :
    depthAfter depth (cs ++ ds) = depthAfter (depthAfter depth cs) ds :=
  List.foldl_append

theorem whole_cons : Whole depth (c :: cs) ↔ ¬(depth = 0 ∧ IsGap c) ∧ Whole (nextDepth depth c) cs := Iff.rfl

theorem whole_append : Whole depth (cs ++ ds) ↔ Whole depth cs ∧ Whole (depthAfter depth cs) ds := by
  induction cs generalizing depth with
  | nil => exact (iff_of_eq (true_and _)).symm
  | cons c cs ih =>
      rw [List.cons_append, whole_cons, whole_cons, ih, and_assoc, depthAfter_cons]

/-- Text without parentheses and gaps. -/
theorem whole_of_plain (h : ∀ c ∈ cs, c ≠ '(' ∧ c ≠ ')' ∧ ¬IsGap c) (depth : Nat) :
    Whole depth cs ∧ depthAfter depth cs = depth := by
  induction cs with
  | nil => exact ⟨trivial, rfl⟩
  | cons c cs ih =>
      obtain ⟨⟨hopen, hclose, hgap⟩, hrest⟩ := List.forall_mem_cons.1 h
      have hdepth : nextDepth depth c = depth := nextDepth_of_ne hopen hclose
      obtain ⟨hwhole, hafter⟩ := ih hrest
      rw [whole_cons, depthAfter_cons, hdepth]
      exact ⟨⟨fun hc => hgap hc.2, hwhole⟩, hafter⟩

theorem whole_of_commas (h : ∀ c ∈ commas, c = ',') (depth : Nat) :
    Whole depth commas ∧ depthAfter depth commas = depth := by
  refine whole_of_plain (fun c hc => ?_) depth
  rw [h c hc]
  decide

/-! ### Splitting -/

theorem splitOutside_cons (depth : Nat) (acc : List Char) (c : Char) (cs : List Char) :
    splitOutside depth acc (c :: cs) =
      if depth = 0 ∧ IsGap c then acc.reverse :: splitOutside 0 [] cs
      else splitOutside (nextDepth depth c) (c :: acc) cs := by
  unfold nextDepth
  rw [splitOutside]
  simp only [beq_iff_eq, Bool.and_eq_true, Bool.or_eq_true]
  split
  · next hopen =>
    have hgap : ¬IsGap c := by rw [hopen]; decide
    rw [if_neg fun h => hgap h.2]
  · split
    · next hclose =>
      have hgap : ¬IsGap c := by rw [hclose]; decide
      rw [if_neg fun h => hgap h.2]
    · split
      · next hgap => rw [if_pos ⟨hgap.2, hgap.1⟩, hgap.2]
      · next hgap => rw [if_neg fun h => hgap ⟨h.2, h.1⟩]

theorem splitOutside_whole (h : Whole depth cs) (acc : List Char) :
    splitOutside depth acc cs = [acc.reverse ++ cs] := by
  induction cs generalizing depth acc with
  | nil => rw [splitOutside, List.append_nil]
  | cons c cs ih =>
      rw [splitOutside_cons, if_neg h.1, ih h.2, List.reverse_cons, List.append_assoc, List.singleton_append]

/-- Where no parenthesis is open a gap cuts the text in two. -/
theorem splitOutside_append_gap (hdepth : depthAfter depth cs = 0) (hc : IsGap c) (acc ds : List Char) :
    splitOutside depth acc (cs ++ c :: ds) = splitOutside depth acc cs ++ splitOutside 0 [] ds := by
  induction cs generalizing depth acc with
  | nil =>
      have hzero : depth = 0 := hdepth
      rw [List.nil_append, splitOutside_cons, if_pos ⟨hzero, hc⟩, splitOutside]
      rfl
  | cons d cs ih =>
      have hafter : depthAfter (nextDepth depth d) cs = 0 := hdepth
      rw [List.cons_append, splitOutside_cons, splitOutside_cons]
      split
      · next hgap =>
        -- The text starts with a gap of its own, which opens nothing.
        rw [nextDepth_gap hgap.2, hgap.1] at hafter
        rw [ih hafter, List.cons_append]
      · exact ih hafter _

/-- No piece holds a gap outside its own parentheses. Here `before` is the latest piece so far. -/
theorem whole_of_mem_splitOutside (before : List Char) (hbefore : Whole 0 before)
    (h : piece ∈ splitOutside (depthAfter 0 before) before.reverse cs) : Whole 0 piece := by
  induction cs generalizing before with
  | nil =>
      rw [splitOutside, List.mem_singleton, List.reverse_reverse] at h
      rwa [h]
  | cons c cs ih =>
      rw [splitOutside_cons, List.reverse_reverse] at h
      split at h
      · rcases List.mem_cons.1 h with rfl | h
        · exact hbefore
        · exact ih [] trivial h
      · next hgap =>
        refine ih (before ++ [c]) (whole_append.2 ⟨hbefore, hgap, trivial⟩) ?_
        rwa [depthAfter_append, List.reverse_append]

/-! ### Pieces -/

theorem arguments_cons_gap (hc : IsGap c) (cs : List Char) : arguments (c :: cs) = arguments cs := by
  rw [arguments, splitOutside_cons, if_pos ⟨rfl, hc⟩]
  rfl

theorem arguments_append_gap (hdepth : depthAfter 0 cs = 0) (hc : IsGap c) (ds : List Char) :
    arguments (cs ++ c :: ds) = arguments cs ++ arguments ds := by
  rw [arguments, splitOutside_append_gap hdepth hc, List.map_append, List.filter_append]
  rfl

/-- Commas after a piece are not part of it. -/
theorem IsPiece.arguments_append_commas (h : IsPiece piece) (hcommas : ∀ c ∈ commas, c = ',') :
    arguments (piece ++ commas) = [piece] := by
  have hwhole : Whole 0 (piece ++ commas) := whole_append.2 ⟨h.whole, (whole_of_commas hcommas _).1⟩
  have hstrip : dropEndWhile (· == ',') (piece ++ commas) = piece := by
    rw [dropEndWhile_append fun c hc => beq_iff_eq.2 (hcommas c hc),
      dropEndWhile_of_getLast? fun c hc => beq_eq_false_iff_ne.2 (h.last c hc)]
  rw [arguments, splitOutside_whole hwhole, List.reverse_nil, List.nil_append, List.map_singleton, hstrip,
    List.filter_cons_of_pos (by simpa using h.ne_nil), List.filter_nil]

/-- A piece splits into itself. -/
theorem IsPiece.arguments_eq (h : IsPiece piece) : arguments piece = [piece] := by
  have halone := h.arguments_append_commas (List.forall_mem_nil _)
  rwa [List.append_nil] at halone

theorem isPiece_of_mem_arguments (h : piece ∈ arguments cs) : IsPiece piece := by
  rw [arguments, List.mem_filter, List.mem_map] at h
  obtain ⟨⟨whole, hwhole, rfl⟩, hne⟩ := h
  obtain ⟨commas, -, hcut⟩ := exists_eq_dropEndWhile_append (· == ',') whole
  have hboth : Whole 0 whole := whole_of_mem_splitOutside [] trivial hwhole
  rw [hcut, whole_append] at hboth
  refine ⟨by simpa using hne, hboth.1, fun c hc => ?_⟩
  have hlast := not_of_getLast?_dropEndWhile hc
  exact beq_eq_false_iff_ne.1 hlast

/-- A piece ends at its commas if it has closed its parentheses. -/
theorem IsPiece.arguments_append (h : IsPiece piece) (hdepth : depthAfter 0 piece = 0)
    (hcommas : ∀ c ∈ commas, c = ',') (hcs : ∀ c ∈ cs.head?, IsGap c) :
    arguments (piece ++ commas ++ cs) = piece :: arguments cs := by
  cases cs with
  | nil =>
      rw [List.append_nil, h.arguments_append_commas hcommas]
      rfl
  | cons c cs =>
      have hc := hcs c rfl
      have hafter : depthAfter 0 (piece ++ commas) = 0 := by
        rw [depthAfter_append, hdepth, (whole_of_commas hcommas 0).2]
      rw [arguments_append_gap hafter hc, arguments_cons_gap hc, h.arguments_append_commas hcommas]
      rfl

end Adventure.Chars

namespace Adventure.Text

theorem arguments_of_mem {s piece : String} (h : piece ∈ arguments s) : arguments piece = [piece] := by
  obtain ⟨cs, hcs, rfl⟩ := List.mem_map.1 h
  rw [arguments, String.toList_ofList, (Chars.isPiece_of_mem_arguments hcs).arguments_eq, List.map_singleton]

end Adventure.Text
