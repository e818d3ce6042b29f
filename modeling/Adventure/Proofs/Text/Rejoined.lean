import Adventure.Proofs.Text.Pieces
/-! Splitting and joining. An argument text splits at its first gap outside parentheses, and the rest splits on its own,
so that only the last piece can leave a parenthesis open. With a space between them the pieces split into
themselves. -/
namespace Adventure.Chars

variable {depth : Nat} {c : Char} {cs piece before after : List Char} {pieces : List (List Char)}

/-- In a whole text a parenthesis is open before each gap. -/
theorem Whole.depth_pos (h : Whole depth (before ++ c :: after)) (hc : IsGap c) : 0 < depthAfter depth before := by
  have hafter := (whole_append.1 h).2
  rw [whole_cons] at hafter
  exact Nat.pos_of_ne_zero fun hzero => hafter.1 ⟨hzero, hc⟩

/-- A text is whole, or a whole text stands before its first gap outside parentheses. -/
theorem whole_or_exists_gap (depth : Nat) (cs : List Char) :
    Whole depth cs ∨ ∃ before c after, cs = before ++ c :: after ∧ Whole depth before ∧
      depthAfter depth before = 0 ∧ IsGap c := by
  induction cs generalizing depth with
  | nil => exact .inl trivial
  | cons c cs ih =>
      by_cases hgap : depth = 0 ∧ IsGap c
      · exact .inr ⟨[], c, cs, rfl, trivial, hgap⟩
      · rcases ih (nextDepth depth c) with hwhole | ⟨before, d, after, rfl, hwhole, hdepth, hd⟩
        · exact .inl ⟨hgap, hwhole⟩
        · exact .inr ⟨c :: before, d, after, rfl, ⟨hgap, hwhole⟩, hdepth, hd⟩

/-- A whole text is commas only, or it is one piece and commas. -/
theorem Whole.arguments_cases (h : Whole 0 cs) : arguments cs = [] ∨
    ∃ piece, arguments cs = [piece] ∧ IsPiece piece ∧ depthAfter 0 piece = depthAfter 0 cs := by
  obtain ⟨commas, hcommas, hcut⟩ := exists_eq_dropEndWhile_append (· == ',') cs
  have hsplit : arguments cs = [dropEndWhile (· == ',') cs].filter (!·.isEmpty) := by
    rw [arguments, splitOutside_whole h, List.reverse_nil, List.nil_append, List.map_singleton]
  by_cases hnil : dropEndWhile (· == ',') cs = []
  · exact .inl (by rw [hsplit, hnil]; rfl)
  · have hpiece : arguments cs = [dropEndWhile (· == ',') cs] := by
      rw [hsplit, List.filter_cons_of_pos (by simpa using hnil), List.filter_nil]
    refine .inr ⟨_, hpiece, isPiece_of_mem_arguments (hpiece ▸ List.mem_singleton_self _), ?_⟩
    have hdepth := (whole_of_commas (fun c hc => beq_iff_eq.1 (hcommas c hc))
      (depthAfter 0 (dropEndWhile (· == ',') cs))).2
    rw [← depthAfter_append, ← hcut] at hdepth
    exact hdepth.symm

/-- Pieces of which only the last may leave a parenthesis open. -/
inductive Parted : List (List Char) → Prop
  | nil : Parted []
  | last {piece : List Char} (h : IsPiece piece) : Parted [piece]
  | cons {piece : List Char} {pieces : List (List Char)} (h : IsPiece piece) (hdepth : depthAfter 0 piece = 0)
      (hrest : Parted pieces) : Parted (piece :: pieces)

theorem parted_arguments (cs : List Char) : Parted (arguments cs) := by
  rcases whole_or_exists_gap 0 cs with hwhole | ⟨before, c, after, hcut, hwhole, hdepth, hc⟩
  · rcases hwhole.arguments_cases with hnone | ⟨piece, hpiece, hp, -⟩
    · exact hnone ▸ .nil
    · exact hpiece ▸ .last hp
  · have hshort : after.length < cs.length := by
      rw [hcut, List.length_append, List.length_cons]
      omega
    have hrest := parted_arguments after
    rw [hcut, arguments_append_gap hdepth hc]
    rcases hwhole.arguments_cases with hnone | ⟨piece, hpiece, hp, hclosed⟩
    · rwa [hnone]
    · rw [hpiece]
      exact .cons hp (hclosed.trans hdepth) hrest
termination_by cs.length
decreasing_by exact hshort

theorem Parted.arguments_join (h : Parted pieces) : arguments ([' '].intercalate pieces) = pieces := by
  induction h with
  | nil => rfl
  | last h => rw [List.intercalate_singleton, h.arguments_eq]
  | @cons piece pieces h hdepth _ ih =>
      cases pieces with
      | nil => rw [List.intercalate_singleton, h.arguments_eq]
      | cons next rest =>
          have hgap : arguments (piece ++ ' ' :: [' '].intercalate (next :: rest)) =
              arguments piece ++ arguments ([' '].intercalate (next :: rest)) :=
            arguments_append_gap hdepth (.inl rfl) _
          rw [List.intercalate_cons_cons, List.append_assoc, List.singleton_append, hgap, h.arguments_eq, ih]
          rfl

end Adventure.Chars

namespace Adventure.Text

theorem mem_arguments_iff {s piece : String} : piece ∈ arguments s ↔ piece.toList ∈ Chars.arguments s.toList := by
  rw [arguments, List.mem_map]
  constructor
  · rintro ⟨cs, hcs, rfl⟩
    rwa [String.toList_ofList]
  · intro h
    exact ⟨piece.toList, h, String.ofList_toList⟩

theorem arguments_join (s : String) : arguments (" ".intercalate (arguments s)) = arguments s := by
  have hlists : (arguments s).map String.toList = Chars.arguments s.toList := by
    rw [arguments, List.map_map, Function.comp_def]
    simp only [String.toList_ofList, List.map_id']
  have htoList : (" ".intercalate (arguments s)).toList = [' '].intercalate (Chars.arguments s.toList) := by
    rw [String.toList_intercalate, hlists]
    rfl
  rw [arguments, htoList, (Chars.parted_arguments s.toList).arguments_join, arguments]

theorem arguments_append_space {a : String} (ha : Chars.depthAfter 0 a.toList = 0) (b : String) :
    arguments (a ++ " " ++ b) = arguments a ++ arguments b := by
  have htoList : (a ++ " " ++ b).toList = a.toList ++ ' ' :: b.toList := by
    rw [String.toList_append, String.toList_append, List.append_assoc]
    rfl
  rw [arguments, htoList, Chars.arguments_append_gap ha (.inl rfl), List.map_append]
  rfl

/-- Splitting ends in a normal form. A piece is not empty, does not end in a comma, and holds a space or tab only
where one of its own parentheses is open; joined by spaces the pieces split into themselves; and what follows a space is
split on its own if no parenthesis is open before it. -/
theorem arguments_normal (s : String) {a : String} (ha : Chars.depthAfter 0 a.toList = 0) (b : String) :
    (∀ piece ∈ arguments s, piece ≠ "" ∧ piece.toList.getLast? ≠ some ',' ∧
      ∀ before c after, piece.toList = before ++ c :: after → c = ' ' ∨ c = '\t' →
        0 < Chars.depthAfter 0 before) ∧
      arguments (" ".intercalate (arguments s)) = arguments s ∧
      arguments (a ++ " " ++ b) = arguments a ++ arguments b := by
  refine ⟨fun piece hpiece => ?_, arguments_join s, arguments_append_space ha b⟩
  have hp := Chars.isPiece_of_mem_arguments (mem_arguments_iff.1 hpiece)
  refine ⟨?_, fun hlast => hp.last ',' hlast rfl, fun before c after hcut hc => ?_⟩
  · rintro rfl
    exact hp.ne_nil rfl
  · have hwhole := hp.whole
    rw [hcut] at hwhole
    exact hwhole.depth_pos hc

theorem arguments_normal_unbalanced :
    Chars.depthAfter 0 ")5(3, 2)".toList = 0 ∧
      arguments "4), ,, ( 1" = ["4)", "( 1"] ∧
      arguments (" ".intercalate (arguments "4), ,, ( 1")) = arguments "4), ,, ( 1" ∧
      arguments (")5(3, 2)" ++ " " ++ "4), ,, ( 1") = [")5(3, 2)", "4)", "( 1"] := by
  have ha : Chars.depthAfter 0 ")5(3, 2)".toList = 0 := by decide
  have hs : arguments "4), ,, ( 1" = ["4)", "( 1"] := by decide
  obtain ⟨-, hjoin, happend⟩ := arguments_normal "4), ,, ( 1" ha "4), ,, ( 1"
  exact ⟨ha, hs, hjoin, happend.trans (by decide)⟩

end Adventure.Text
