import Mathlib.Data.List.Forall2
import Adventure.Proofs.Text.Number
import Adventure.Walk.Map
/-! Walk maps as bytes and as rows of glyphs. A map is read from its bytes with whatever comes after them, and from rows
of glyphs that stand for its cells. -/
namespace Adventure.WalkMap

variable {m : WalkMap} {bytes : List UInt8} {rows : List String} {width height : UInt16}

/-! ### Bytes -/

/-- The number of two bytes, the lesser one first. Bytes that are missing count as 0. -/
def wordAt (bytes : List UInt8) (i : Nat) : Nat :=
  (bytes.getD i 0).toNat + 256 * (bytes.getD (i + 1) 0).toNat

theorem toNat_word (low high : UInt8) : (word low high).toNat = low.toNat + 256 * high.toNat := by
  have hlow := low.toNat_lt
  have hhigh := high.toNat_lt
  exact UInt16.toNat_ofNat_of_lt' (by simp only [UInt16.size]; omega)

theorem wordAt_zero (low high : UInt8) (bytes : List UInt8) :
    wordAt (low :: high :: bytes) 0 = (word low high).toNat :=
  (toNat_word low high).symm

theorem wordAt_two (b c low high : UInt8) (bytes : List UInt8) :
    wordAt (b :: c :: low :: high :: bytes) 2 = (word low high).toNat :=
  (toNat_word low high).symm

theorem wordBytes_word (low high : UInt8) : wordBytes (word low high) = [low, high] := by
  have hlow := low.toNat_lt
  have hmod : (low.toNat + 256 * high.toNat) % 256 = low.toNat := by omega
  have hdiv : (low.toNat + 256 * high.toNat) / 256 = high.toNat := by omega
  rw [wordBytes, toNat_word, hmod, hdiv]
  exact congrArg₂ (fun a b => [a, b]) (UInt8.ofNat_toNat) (UInt8.ofNat_toNat)

theorem word_bytes (n : UInt16) : word (n.toNat % 256).toUInt8 (n.toNat / 256).toUInt8 = n := by
  have hn := n.toNat_lt
  have hbyte : ∀ {k : Nat}, k < 256 → k.toUInt8.toNat = k := fun hk => UInt8.toNat_ofNat_of_lt' hk
  rw [← UInt16.toNat_inj, toNat_word, hbyte (by omega), hbyte (by omega)]
  omega

theorem ofCells_eq_ok_iff {cells : Array UInt8} : ofCells width height cells = .ok m ↔
    width ≠ 0 ∧ height ≠ 0 ∧ m.width = width ∧ m.height = height ∧ m.cells = cells := by
  unfold ofCells
  split
  · next hempty =>
    refine iff_of_false (fun h => nomatch h) fun ⟨hwidth, hheight, _⟩ => ?_
    exact hempty.elim hwidth hheight
  · next harea =>
    rw [not_or] at harea
    split
    · constructor
      · rintro ⟨⟩
        exact ⟨harea.1, harea.2, rfl, rfl, rfl⟩
      · obtain ⟨mwidth, mheight, mcells, hsize⟩ := m
        rintro ⟨-, -, rfl, rfl, rfl⟩
        rfl
    · next hsize =>
      refine iff_of_false (fun h => nomatch h) ?_
      rintro ⟨-, -, rfl, rfl, rfl⟩
      exact hsize m.size_cells

theorem parse_cons (w₀ w₁ h₀ h₁ : UInt8) (cells : List UInt8) : parse (w₀ :: w₁ :: h₀ :: h₁ :: cells) =
    if cells.length < area (word w₀ w₁) (word h₀ h₁) then
      .error (.truncated (word w₀ w₁) (word h₀ h₁) cells.length)
    else ofCells (word w₀ w₁) (word h₀ h₁) (cells.take (area (word w₀ w₁) (word h₀ h₁))).toArray := rfl

theorem parse_toBytes_append (hwidth : m.width ≠ 0) (hheight : m.height ≠ 0) (suffix : List UInt8) :
    parse (m.toBytes ++ suffix) = .ok m := by
  have hsize : m.cells.toList.length = area m.width m.height := m.size_cells
  have henough : ¬(m.cells.toList ++ suffix).length < area m.width m.height := by
    rw [List.length_append, hsize]
    omega
  change parse (_ :: _ :: _ :: _ :: (m.cells.toList ++ suffix)) = _
  rw [parse_cons, word_bytes, word_bytes, if_neg henough, ← hsize, List.take_left, ofCells_eq_ok_iff]
  exact ⟨hwidth, hheight, rfl, rfl, Array.toArray_toList.symm⟩

/-- The bytes of a map, and any bytes after them, are read as that map. -/
theorem parse_eq_ok_iff : parse bytes = .ok m ↔
    m.width ≠ 0 ∧ m.height ≠ 0 ∧ ∃ suffix, bytes = m.toBytes ++ suffix := by
  constructor
  · intro h
    match bytes with
    | w₀ :: w₁ :: h₀ :: h₁ :: cells =>
        rw [parse_cons] at h
        split at h
        · cases h
        · obtain ⟨hwidth, hheight, hmwidth, hmheight, hcells⟩ := ofCells_eq_ok_iff.1 h
          refine ⟨by rwa [hmwidth], by rwa [hmheight], cells.drop (area (word w₀ w₁) (word h₀ h₁)), ?_⟩
          rw [toBytes, hmwidth, hmheight, hcells, wordBytes_word, wordBytes_word, List.append_assoc,
            List.take_append_drop]
          rfl
    | [] => cases h
    | [_] => cases h
    | [_, _] => cases h
    | [_, _, _] => cases h
  · rintro ⟨hwidth, hheight, suffix, rfl⟩
    exact parse_toBytes_append hwidth hheight suffix

theorem toBytes_of_parse (h : parse bytes = .ok m) :
    m.toBytes = bytes.take (4 + wordAt bytes 0 * wordAt bytes 2) := by
  obtain ⟨-, -, suffix, rfl⟩ := parse_eq_ok_iff.1 h
  have hwidth : wordAt (m.toBytes ++ suffix) 0 = m.width.toNat :=
    (wordAt_zero _ _ _).trans (congrArg UInt16.toNat (word_bytes m.width))
  have hheight : wordAt (m.toBytes ++ suffix) 2 = m.height.toNat :=
    (wordAt_two _ _ _ _ _).trans (congrArg UInt16.toNat (word_bytes m.height))
  have hlength : m.toBytes.length = 4 + m.width.toNat * m.height.toNat := by
    rw [← m.size_cells]
    exact Nat.add_comm _ 4
  rw [hwidth, hheight, ← hlength, List.take_left]

theorem exists_ofCells_iff {cells : Array UInt8} : (∃ m, ofCells width height cells = .ok m) ↔
    width ≠ 0 ∧ height ≠ 0 ∧ cells.size = area width height := by
  simp only [ofCells_eq_ok_iff]
  constructor
  · rintro ⟨m, hwidth, hheight, rfl, rfl, rfl⟩
    exact ⟨hwidth, hheight, m.size_cells⟩
  · rintro ⟨hwidth, hheight, hsize⟩
    exact ⟨⟨width, height, cells, hsize⟩, hwidth, hheight, rfl, rfl, rfl⟩

/-- Bytes are read exactly if they are long enough for the width and the height at their start. -/
theorem exists_parse_iff (bytes : List UInt8) : (∃ m, parse bytes = .ok m) ↔
    4 ≤ bytes.length ∧ wordAt bytes 0 ≠ 0 ∧ wordAt bytes 2 ≠ 0 ∧
      4 + wordAt bytes 0 * wordAt bytes 2 ≤ bytes.length := by
  match bytes with
  | w₀ :: w₁ :: h₀ :: h₁ :: cells =>
      have hzero : ∀ {n : UInt16}, n ≠ 0 ↔ n.toNat ≠ 0 := fun {n} => not_congr UInt16.toNat_inj.symm
      rw [parse_cons, wordAt_zero, wordAt_two, ← hzero, ← hzero]
      split
      · next hshort =>
        refine iff_of_false (fun ⟨_, h⟩ => nomatch h) fun ⟨_, _, _, hlong⟩ => ?_
        simp only [area, List.length_cons] at hshort hlong
        omega
      · next hlong =>
        rw [exists_ofCells_iff, List.size_toArray, List.length_take_of_le (Nat.not_lt.1 hlong)]
        constructor
        · rintro ⟨hwidth, hheight, -⟩
          refine ⟨by simp, hwidth, hheight, ?_⟩
          simp only [area, List.length_cons] at hlong ⊢
          omega
        · rintro ⟨-, hwidth, hheight, -⟩
          exact ⟨hwidth, hheight, rfl⟩
  | [] => exact iff_of_false (fun ⟨_, h⟩ => nomatch h) fun h => absurd h.1 (by decide)
  | [_] => exact iff_of_false (fun ⟨_, h⟩ => nomatch h) fun h => absurd h.1 (by simp)
  | [_, _] => exact iff_of_false (fun ⟨_, h⟩ => nomatch h) fun h => absurd h.1 (by simp)
  | [_, _, _] => exact iff_of_false (fun ⟨_, h⟩ => nomatch h) fun h => absurd h.1 (by simp)

/-! ### Changes -/

structure Change where
  x : UInt16
  y : UInt16
  value : UInt8

def change (m : WalkMap) (c : Change) : WalkMap :=
  m.set c.x c.y c.value

/-- The dimensions stay, wherever the cell is. -/
theorem dimensions_change (m : WalkMap) (c : Change) :
    (m.change c).width = m.width ∧ (m.change c).height = m.height := by
  unfold change set
  split
  · exact ⟨rfl, rfl⟩
  · exact ⟨rfl, rfl⟩

theorem dimensions_foldl_change (m : WalkMap) (cs : List Change) :
    (cs.foldl change m).width = m.width ∧ (cs.foldl change m).height = m.height := by
  induction cs generalizing m with
  | nil => exact ⟨rfl, rfl⟩
  | cons c cs ih =>
      obtain ⟨hwidth, hheight⟩ := dimensions_change m c
      rw [List.foldl_cons, (ih _).1, (ih _).2]
      exact ⟨hwidth, hheight⟩

/-! ### Rows of cells -/

section
variable {cells : List UInt8} {w h : Nat}

theorem length_rowsOf (w h : Nat) (cells : List UInt8) : (rowsOf w h cells).length = h := by
  induction h generalizing cells with
  | zero => rfl
  | succ h ih => rw [rowsOf, List.length_cons, ih]

theorem flatten_rowsOf (hlength : cells.length = w * h) : (rowsOf w h cells).flatten = cells := by
  induction h generalizing cells with
  | zero => exact (List.length_eq_zero_iff.1 hlength).symm
  | succ h ih =>
      have hrest : (cells.drop w).length = w * h := by rw [List.length_drop, hlength, Nat.mul_succ, Nat.add_sub_cancel]
      rw [rowsOf, List.flatten_cons, ih hrest, List.take_append_drop]

theorem length_of_mem_rowsOf {row : List UInt8} (hlength : cells.length = w * h) (hrow : row ∈ rowsOf w h cells) :
    row.length = w := by
  induction h generalizing cells with
  | zero => cases hrow
  | succ h ih =>
      rw [Nat.mul_succ] at hlength
      rcases List.mem_cons.1 hrow with rfl | hrow
      · exact List.length_take_of_le (by omega)
      · exact ih (by rw [List.length_drop, hlength, Nat.add_sub_cancel]) hrow

theorem rowsOf_flatten {parts : List (List UInt8)} (h : ∀ part ∈ parts, part.length = w) :
    rowsOf w parts.length parts.flatten = parts := by
  induction parts with
  | nil => rfl
  | cons part parts ih =>
      obtain ⟨hpart, hparts⟩ := List.forall_mem_cons.1 h
      rw [List.length_cons, rowsOf, List.flatten_cons, List.take_left' hpart, List.drop_left' hpart, ih hparts]

end

/-! ### Glyphs -/

/-- How a glyph is shown again: there are two for the cells 0 and 1. -/
def shown (g : Char) : Char :=
  if g = '0' then '#' else if g = '1' then '.' else g

theorem ofGlyph?_glyph {value : UInt8} (h : value ≤ 9) : ofGlyph? (glyph value) = some value := by
  have hdigit : ∀ n, n < 10 → ofGlyph? (glyph n.toUInt8) = some n.toUInt8 := by decide
  have hvalue : value.toNat.toUInt8 = value := UInt8.ofNat_toNat
  have hglyph := hdigit value.toNat (Nat.lt_succ_of_le (UInt8.le_iff_toNat_le.1 h))
  rwa [hvalue] at hglyph

theorem glyph_of_isDigit {g : Char} (h : g.isDigit = true) : glyph (g.toNat - '0'.toNat).toUInt8 = shown g := by
  have hdigit : ∀ n, n < 10 → glyph n.toUInt8 = shown (Char.ofNat ('0'.toNat + n)) := by decide
  obtain ⟨hzero, hnine⟩ := Char.isDigit_iff_toNat.1 h
  have hlt : g.toNat - '0'.toNat < 10 := Nat.sub_lt_left_of_lt_add hzero (Nat.lt_succ_of_le hnine)
  rw [hdigit _ hlt, Nat.add_sub_cancel' hzero, Char.ofNat_toNat]

theorem glyph_of_ofGlyph? {g : Char} {value : UInt8} (h : ofGlyph? g = some value) : glyph value = shown g := by
  unfold ofGlyph? at h
  split at h
  · next hblocked =>
    cases h
    rw [beq_iff_eq.1 hblocked]
    rfl
  · split at h
    · next hopen =>
      cases h
      rw [beq_iff_eq.1 hopen]
      rfl
    · split at h
      · next hdigit =>
        cases h
        exact glyph_of_isDigit hdigit
      · cases h

/-- No glyph ends a line. -/
theorem lt_toNat_glyph (value : UInt8) : 32 < (glyph value).toNat := by
  have hdigit : ∀ n, n < 10 → 32 < (Char.ofNat ('0'.toNat + n)).toNat := by decide
  unfold glyph
  split
  · decide
  · split
    · decide
    · split
      · next hle => exact hdigit _ (Nat.lt_succ_of_le (UInt8.le_iff_toNat_le.1 hle))
      · decide

/-- The glyphs of the row stand for the cells. -/
def ReadsAs (row : String) (cells : List UInt8) : Prop :=
  List.Forall₂ (fun g value => ofGlyph? g = some value) row.toList cells

theorem ReadsAs.length_eq {row : String} {cells : List UInt8} (h : ReadsAs row cells) : row.length = cells.length := by
  rw [← String.length_toList]
  exact List.Forall₂.length_eq h

theorem ReadsAs.map_glyph {row : String} {cells : List UInt8} (h : ReadsAs row cells) :
    cells.map glyph = row.toList.map shown := by
  unfold ReadsAs at h
  generalize row.toList = glyphs at h ⊢
  induction h with
  | nil => rfl
  | cons hg _ ih => rw [List.map_cons, List.map_cons, glyph_of_ofGlyph? hg, ih]

theorem readGlyphs_eq_ok_iff {y : Nat} {glyphs : List Char} {cells : List UInt8} :
    readGlyphs y glyphs = .ok cells ↔ List.Forall₂ (fun g value => ofGlyph? g = some value) glyphs cells := by
  induction glyphs generalizing cells with
  | nil =>
      rw [readGlyphs, List.forall₂_nil_left_iff, Except.ok.injEq, eq_comm]
  | cons g glyphs ih =>
      rw [readGlyphs, List.forall₂_cons_left_iff]
      split
      · next hnone => simp [hnone]
      · next value hvalue =>
        simp only [bind_eq_ok_iff, ih, hvalue]
        constructor
        · rintro ⟨rest, hrest, ⟨⟩⟩
          exact ⟨value, rest, rfl, hrest, rfl⟩
        · rintro ⟨_, rest, ⟨⟩, hrest, rfl⟩
          exact ⟨rest, hrest, rfl⟩

theorem readRows_eq_ok_iff {y : Nat} {w : Nat} {cells : List UInt8} : readRows w y rows = .ok cells ↔
    ∃ parts, List.Forall₂ ReadsAs rows parts ∧ (∀ part ∈ parts, part.length = w) ∧ cells = parts.flatten := by
  induction rows generalizing y cells with
  | nil =>
      rw [readRows]
      constructor
      · rintro ⟨⟩
        exact ⟨[], .nil, List.forall_mem_nil _, rfl⟩
      · rintro ⟨_, ⟨⟩, -, rfl⟩
        rfl
  | cons row rows ih =>
      rw [readRows]
      by_cases hlength : row.length = w
      · rw [if_neg (not_not.2 hlength)]
        simp only [bind_eq_ok_iff, readGlyphs_eq_ok_iff, ih]
        constructor
        · rintro ⟨part, hpart, _, ⟨parts, hparts, hlengths, rfl⟩, ⟨⟩⟩
          have hpart' : ReadsAs row part := hpart
          exact ⟨part :: parts, .cons hpart hparts,
            List.forall_mem_cons.2 ⟨hpart'.length_eq.symm.trans hlength, hlengths⟩, rfl⟩
        · rintro ⟨_, hparts, hlengths, rfl⟩
          cases hparts with
          | @cons _ part _ parts hpart hparts =>
              exact ⟨part, hpart, parts.flatten, ⟨parts, hparts, (List.forall_mem_cons.1 hlengths).2, rfl⟩, rfl⟩
      · rw [if_pos hlength]
        refine iff_of_false (fun h => nomatch h) ?_
        rintro ⟨_, hparts, hlengths, rfl⟩
        cases hparts with
        | cons hpart hparts => exact hlength (hpart.length_eq.trans (hlengths _ List.mem_cons_self))

theorem ofRows_cons (first : String) (rest : List String) : ofRows (first :: rest) =
    readRows first.length 0 (first :: rest) >>= fun cells =>
      if UInt16.size ≤ first.length then .error .tooWide
      else if UInt16.size ≤ (first :: rest).length then .error .tooTall
      else ofCells first.length.toUInt16 (first :: rest).length.toUInt16 cells.toArray := by
  unfold ofRows
  refine bind_congr fun cells => ?_
  split
  · rfl
  · simp only
    split
    · rfl
    · rfl

/-- Rows are read as the map whose rows of cells they stand for. -/
theorem ofRows_eq_ok_iff : ofRows rows = .ok m ↔ m.width ≠ 0 ∧ m.height ≠ 0 ∧
    List.Forall₂ ReadsAs rows (rowsOf m.width.toNat m.height.toNat m.cells.toList) := by
  constructor
  · intro h
    cases rows with
    | nil => cases h
    | cons first rest =>
        rw [ofRows_cons] at h
        obtain ⟨cells, hcells, h⟩ := bind_eq_ok_iff.1 h
        obtain ⟨parts, hparts, hlengths, rfl⟩ := readRows_eq_ok_iff.1 hcells
        split at h
        · cases h
        · next hwide =>
          split at h
          · cases h
          · next htall =>
            obtain ⟨hwidth, hheight, hmwidth, hmheight, hmcells⟩ := ofCells_eq_ok_iff.1 h
            have hw : m.width.toNat = first.length := by
              rw [hmwidth]
              exact UInt16.toNat_ofNat_of_lt' (Nat.not_le.1 hwide)
            have hh : m.height.toNat = parts.length := by
              rw [hmheight, ← hparts.length_eq]
              exact UInt16.toNat_ofNat_of_lt' (Nat.not_le.1 htall)
            refine ⟨by rwa [hmwidth], by rwa [hmheight], ?_⟩
            rwa [hw, hh, hmcells, List.toList_toArray, rowsOf_flatten hlengths]
  · rintro ⟨hwidth, hheight, hrows⟩
    have hcells : m.cells.toList.length = m.width.toNat * m.height.toNat := m.size_cells
    have hlengths : ∀ part ∈ rowsOf m.width.toNat m.height.toNat m.cells.toList, part.length = m.width.toNat :=
      fun part hpart => length_of_mem_rowsOf hcells hpart
    have hcount : rows.length = m.height.toNat := by rw [hrows.length_eq, length_rowsOf]
    cases rows with
    | nil => exact absurd (UInt16.toNat_inj.1 hcount.symm) hheight
    | cons first rest =>
        -- The first row gives the width with which all rows are read.
        have hfirst : first.length = m.width.toNat := by
          obtain ⟨part, parts, hpart, -, hall⟩ := List.forall₂_cons_left_iff.1 hrows
          rw [hpart.length_eq]
          exact hlengths part (by rw [hall]; exact List.mem_cons_self)
        have hread : readRows m.width.toNat 0 (first :: rest) = .ok m.cells.toList :=
          readRows_eq_ok_iff.2 ⟨_, hrows, hlengths, (flatten_rowsOf hcells).symm⟩
        have hwide : ¬UInt16.size ≤ m.width.toNat := Nat.not_le.2 m.width.toNat_lt
        have htall : ¬UInt16.size ≤ m.height.toNat := Nat.not_le.2 m.height.toNat_lt
        rw [ofRows_cons, hfirst, hread, hcount]
        change (if _ then _ else if _ then _ else _) = _
        have hwidth' : m.width.toNat.toUInt16 = m.width := UInt16.ofNat_toNat
        have hheight' : m.height.toNat.toUInt16 = m.height := UInt16.ofNat_toNat
        rw [if_neg hwide, if_neg htall, hwidth', hheight', ofCells_eq_ok_iff]
        exact ⟨hwidth, hheight, rfl, rfl, Array.toArray_toList.symm⟩

theorem ofRows_rows (hwidth : m.width ≠ 0) (hheight : m.height ≠ 0) (hcells : ∀ value ∈ m.cells, value ≤ 9) :
    ofRows m.rows = .ok m := by
  have hlength : m.cells.toList.length = m.width.toNat * m.height.toNat := m.size_cells
  refine ofRows_eq_ok_iff.2 ⟨hwidth, hheight, ?_⟩
  rw [WalkMap.rows, List.forall₂_map_left_iff, List.forall₂_same]
  intro row hrow
  rw [ReadsAs, String.toList_ofList, List.forall₂_map_left_iff, List.forall₂_same]
  intro value hvalue
  have hmem : value ∈ m.cells.toList := by
    rw [← flatten_rowsOf hlength]
    exact List.mem_flatten_of_mem hrow hvalue
  exact ofGlyph?_glyph (hcells value (Array.mem_toList_iff.1 hmem))

theorem rows_of_ofRows (h : ofRows rows = .ok m) :
    m.rows = rows.map fun row => String.ofList (row.toList.map shown) := by
  rw [ofRows_eq_ok_iff] at h
  obtain ⟨-, -, hrows⟩ := h
  rw [WalkMap.rows]
  generalize rowsOf m.width.toNat m.height.toNat m.cells.toList = parts at hrows ⊢
  induction hrows with
  | nil => rfl
  | cons hrow _ ih => rw [List.map_cons, List.map_cons, hrow.map_glyph, ih]

/-! ### Lines -/

/-- The lines of a text, if `line` is the latest one backwards. A line feed ends a line, and a carriage return right
before it belongs to the end. -/
def splitLines : List Char → List Char → List (List Char)
  | line, [] => if line = [] then [] else [line.reverse]
  | line, c :: cs =>
    if c = '\n' then (if line.head? = some '\r' then line.tail else line).reverse :: splitLines [] cs
    else splitLines (c :: line) cs

def textLines (text : String) : List String :=
  (splitLines [] text.toList).map String.ofList

theorem splitLines_append {before row : List Char} (hrow : '\n' ∉ row) (cs : List Char) :
    splitLines before (row ++ cs) = splitLines (row.reverse ++ before) cs := by
  induction row generalizing before with
  | nil => rfl
  | cons c row ih =>
      rw [List.mem_cons, not_or] at hrow
      rw [List.cons_append, splitLines, if_neg (Ne.symm hrow.1), ih hrow.2, List.reverse_cons, List.append_assoc]
      rfl

theorem textLines_join (h : ∀ row ∈ rows, '\n' ∉ row.toList ∧ '\r' ∉ row.toList) :
    textLines (String.join (rows.map (· ++ "\n"))) = rows := by
  induction rows with
  | nil => rfl
  | cons row rows ih =>
      obtain ⟨⟨hfeed, hreturn⟩, hrows⟩ := List.forall_mem_cons.1 h
      have hlast : row.toList.reverse.head? ≠ some '\r' := fun hhead =>
        hreturn (List.mem_reverse.1 (List.mem_of_head? hhead))
      have hrest := ih hrows
      have hend : ("\n" : String).toList = ['\n'] := rfl
      unfold textLines at hrest ⊢
      rw [List.map_cons, String.join_cons, String.toList_append, String.toList_append, hend, List.append_assoc,
        splitLines_append hfeed, List.append_nil, List.singleton_append, splitLines, if_pos rfl, if_neg hlast,
        List.reverse_reverse, List.map_cons, String.ofList_toList, hrest]

theorem textLines_render (m : WalkMap) : textLines m.render = m.rows := by
  refine textLines_join fun row hrow => ?_
  obtain ⟨cells, -, rfl⟩ := List.mem_map.1 hrow
  have hplain : ∀ c ∈ cells.map glyph, 32 < c.toNat := by
    intro c hc
    obtain ⟨value, -, rfl⟩ := List.mem_map.1 hc
    exact lt_toNat_glyph value
  rw [String.toList_ofList]
  exact ⟨fun hfeed => absurd (hplain _ hfeed) (by decide), fun hreturn => absurd (hplain _ hreturn) (by decide)⟩

/-! ### Both codecs -/

/-- Exactly the bytes that are long enough for their width and height are read, and written again up to the end of the
cells. A map that has cells is read from its bytes, whatever was changed in it before, and also from its rows, unless a
cell has no glyph of its own; rows are written again with one glyph for each cell. -/
theorem codecs_inverse :
    (∀ bytes, ((∃ m, parse bytes = .ok m) ↔ 4 ≤ bytes.length ∧ wordAt bytes 0 ≠ 0 ∧ wordAt bytes 2 ≠ 0 ∧
        4 + wordAt bytes 0 * wordAt bytes 2 ≤ bytes.length) ∧
      ∀ m, parse bytes = .ok m → m.toBytes = bytes.take (4 + wordAt bytes 0 * wordAt bytes 2)) ∧
    (∀ m : WalkMap, m.width ≠ 0 → m.height ≠ 0 →
      (∀ (changes : List Change) (suffix : List UInt8),
        parse ((changes.foldl change m).toBytes ++ suffix) = .ok (changes.foldl change m)) ∧
      ((∀ value ∈ m.cells, value ≤ 9) → ofRows (textLines m.render) = .ok m)) ∧
    ∀ rows m, ofRows rows = .ok m →
      m.render = String.join (rows.map fun row => String.ofList (row.toList.map shown) ++ "\n") := by
  refine ⟨fun bytes => ⟨exists_parse_iff bytes, fun m => toBytes_of_parse⟩, fun m hwidth hheight => ⟨?_, ?_⟩, ?_⟩
  · intro changes suffix
    obtain ⟨hwidth', hheight'⟩ := dimensions_foldl_change m changes
    exact parse_toBytes_append (by rwa [hwidth']) (by rwa [hheight']) suffix
  · intro hcells
    rw [textLines_render]
    exact ofRows_rows hwidth hheight hcells
  · intro rows m h
    rw [render, rows_of_ofRows h, List.map_map]
    rfl

def yard : WalkMap :=
  ⟨3, 2, #[1, 1, 0, 0, 3, 1], by decide⟩

/-- A map whose first cell is changed is read from its bytes, and so is the map itself from its rows. A change outside
the map makes no difference. -/
theorem codecs_inverse_yard :
    (∃ m, parse [3, 0, 2, 0, 1, 1, 0, 0, 3, 1, 77] = .ok m ∧ m.toBytes = [3, 0, 2, 0, 1, 1, 0, 0, 3, 1]) ∧
    parse ((yard.set 0 0 255 |>.set 7 7 1).toBytes ++ [77]) = .ok (yard.set 0 0 255 |>.set 7 7 1) ∧
    ofRows (textLines yard.render) = .ok yard ∧ ofRows ["11#", "03."] = .ok yard ∧ yard.render = "..#\n#3.\n" := by
  obtain ⟨hbytes, hmaps, hrows⟩ := codecs_inverse
  obtain ⟨hchanges, hrender⟩ := hmaps yard (by decide) (by decide)
  obtain ⟨m, hm⟩ := (hbytes [3, 0, 2, 0, 1, 1, 0, 0, 3, 1, 77]).1.2 (by decide)
  have hread : ofRows ["11#", "03."] = .ok yard := by decide
  exact ⟨⟨m, hm, (hbytes _).2 m hm⟩, hchanges [⟨0, 0, 255⟩, ⟨7, 7, 1⟩] [77], hrender (by simp [yard]), hread,
    hrows _ _ hread⟩

/-- A map without cells has no rows, and no map is read from no rows. -/
theorem not_ofRows_render : ¬∀ m : WalkMap, (∀ value ∈ m.cells, value ≤ 9) → ofRows (textLines m.render) = .ok m := by
  intro h
  have hempty := h (filled 3 0 1) (by simp [filled])
  cases hempty

end Adventure.WalkMap
