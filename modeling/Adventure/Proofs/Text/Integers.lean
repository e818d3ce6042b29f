import Mathlib.Data.List.Forall2
import Adventure.Text.Line
import Adventure.Proofs.Text.Number
import Adventure.Proofs.Text.Pieces
/-! Integers in arguments. A piece stands for one integer or for a group of them; the line stands for the integers of
all its pieces, and it cannot be read just if one of them cannot. -/
namespace Adventure

namespace Chars
variable {cs ds rest : List Char} {c : Char}

/-! ### Digits -/

/-- A run of decimal digits of any script. -/
structure IsDigits (ds : List Char) : Prop where
  ne_nil : ds ≠ []
  digits : ∀ d ∈ ds, isDecimalDigit d = true

inductive IsSigned : List Char → Prop
  | plain {ds : List Char} (h : IsDigits ds) : IsSigned ds
  | minus {ds : List Char} (h : IsDigits ds) : IsSigned ('-' :: ds)

theorem isDecimalDigit_of_isDigit (h : c.isDigit = true) : isDecimalDigit c = true := by
  have hrange : 48 ≤ c.toNat ∧ c.toNat ≤ 57 := Char.isDigit_iff_toNat.1 h
  refine List.any_eq_true.2 ⟨0x30, List.mem_cons_self, ?_⟩
  rw [Bool.and_eq_true, decide_eq_true_iff, decide_eq_true_iff]
  exact hrange

theorem digits?_eq_some_iff : digits? cs = some (ds, rest) ↔
    cs = ds ++ rest ∧ IsDigits ds ∧ ∀ c ∈ rest.head?, isDecimalDigit c = false := by
  constructor
  · intro h
    unfold digits? at h
    split at h
    · cases h
    · next hne =>
      cases h
      exact ⟨List.takeWhile_append_dropWhile.symm, ⟨hne, fun d => List.mem_takeWhile_imp⟩,
        fun c => not_of_head?_dropWhile⟩
  · rintro ⟨rfl, hds, hrest⟩
    rw [digits?, takeWhile_append_of_head? hds.digits hrest, dropWhile_append_of_head? hds.digits hrest]
    split
    · exact absurd rfl hds.ne_nil
    · rfl

theorem IsDigits.head?_ne (h : IsDigits ds) (hc : isDecimalDigit c = false) : ds.head? ≠ some c := by
  intro hhead
  rw [h.digits c (List.mem_of_head? hhead)] at hc
  cases hc

theorem IsSigned.no_plus (h : IsSigned ds) : ds.head? ≠ some '+' := by
  cases h with
  | plain h => exact h.head?_ne (by decide)
  | minus h => simp

theorem signedDigits?_eq_some_iff : signedDigits? cs = some (ds, rest) ↔
    cs = ds ++ rest ∧ IsSigned ds ∧ ∀ c ∈ rest.head?, isDecimalDigit c = false := by
  unfold signedDigits?
  split
  · next cs =>
    simp only [Option.map_eq_some_iff, Prod.exists, Prod.mk.injEq, digits?_eq_some_iff]
    constructor
    · rintro ⟨ds, rest, ⟨rfl, hds, hrest⟩, rfl, rfl⟩
      exact ⟨rfl, .minus hds, hrest⟩
    · rintro ⟨hcs, hsigned, hrest⟩
      cases hsigned with
      | plain hds =>
          -- The text starts with a minus, which is no digit.
          have hhead : ds.head? = some '-' := by
            rw [← List.head?_append_of_ne_nil ds hds.ne_nil, ← hcs]
            rfl
          exact absurd hhead (hds.head?_ne (by decide))
      | @minus ds hds =>
          cases hcs
          exact ⟨ds, rest, ⟨rfl, hds, hrest⟩, rfl, rfl⟩
  · next hminus =>
    rw [digits?_eq_some_iff]
    constructor
    · rintro ⟨hcs, hds, hrest⟩
      exact ⟨hcs, .plain hds, hrest⟩
    · rintro ⟨hcs, hsigned, hrest⟩
      cases hsigned with
      | plain hds => exact ⟨hcs, hds, hrest⟩
      | minus hds => exact absurd hcs (hminus _)

theorem digits?_append (hds : IsDigits ds) (hc : isDecimalDigit c = false) (rest : List Char) :
    digits? (ds ++ c :: rest) = some (ds, c :: rest) := by
  refine digits?_eq_some_iff.2 ⟨rfl, hds, ?_⟩
  rintro d ⟨⟩
  exact hc

theorem signedDigits?_append (hds : IsSigned ds) (hc : isDecimalDigit c = false) (rest : List Char) :
    signedDigits? (ds ++ c :: rest) = some (ds, c :: rest) := by
  refine signedDigits?_eq_some_iff.2 ⟨rfl, hds, ?_⟩
  rintro d ⟨⟩
  exact hc

/-! ### Groups -/

namespace RepeatGroup
variable {g : RepeatGroup}

def text (g : RepeatGroup) : List Char :=
  g.start ++ '(' :: (g.count ++ ',' :: (g.step ++ [')']))

structure WellFormed (g : RepeatGroup) : Prop where
  start : IsSigned g.start
  count : IsDigits g.count
  step : IsSigned g.step

theorem ofChars?_eq_some_iff : ofChars? cs = some g ↔ cs = g.text ∧ g.WellFormed := by
  constructor
  · intro h
    unfold ofChars? at h
    split at h
    · next start afterStart hstart =>
      split at h
      · next count afterCount hcount =>
        split at h
        · next step hstep =>
          cases h
          obtain ⟨rfl, hstart', -⟩ := signedDigits?_eq_some_iff.1 hstart
          obtain ⟨rfl, hcount', -⟩ := digits?_eq_some_iff.1 hcount
          obtain ⟨rfl, hstep', -⟩ := signedDigits?_eq_some_iff.1 hstep
          exact ⟨rfl, hstart', hcount', hstep'⟩
        · cases h
      · cases h
    · cases h
  · rintro ⟨rfl, hg⟩
    simp only [ofChars?, text, signedDigits?_append hg.start (c := '(') (by decide),
      digits?_append hg.count (c := ',') (by decide), signedDigits?_append hg.step (c := ')') (by decide)]

end RepeatGroup
end Chars

namespace Text
open Chars (RepeatGroup)

variable {cs : List Char} {token : String} {values : List Int32} {g : RepeatGroup} {n m : Int} {k : Nat}

/-! ### What numbers look like -/

theorem Decimal.isDigits (h : Decimal (String.ofList cs) k) (hplus : cs.head? ≠ some '+') : Chars.IsDigits cs := by
  obtain ⟨digits, hne, hdigits, hform, -⟩ := h
  rw [String.toList_ofList] at hform
  rcases hform with rfl | rfl
  · exact ⟨hne, fun d hd => Chars.isDecimalDigit_of_isDigit (hdigits d hd)⟩
  · exact absurd rfl hplus

theorem Integer.isSigned (h : Integer (String.ofList cs) n) (hplus : cs.head? ≠ some '+') : Chars.IsSigned cs := by
  rcases h with ⟨k, hdecimal, -⟩ | ⟨digits, hne, hdigits, hform, -⟩
  · exact .plain (hdecimal.isDigits hplus)
  · rw [String.toList_ofList] at hform
    rw [hform]
    exact .minus ⟨hne, fun d hd => Chars.isDecimalDigit_of_isDigit (hdigits d hd)⟩

/-- There are only digits and signs in a number. -/
theorem Integer.mem (h : Integer (String.ofList cs) n) : ∀ c ∈ cs, c.isDigit = true ∨ c = '+' ∨ c = '-' := by
  rcases h with ⟨k, ⟨digits, -, hdigits, hform, -⟩, -⟩ | ⟨digits, -, hdigits, hform, -⟩
  · rw [String.toList_ofList] at hform
    rcases hform with rfl | rfl
    · exact fun c hc => .inl (hdigits c hc)
    · exact List.forall_mem_cons.2 ⟨.inr (.inl rfl), fun c hc => .inl (hdigits c hc)⟩
  · rw [String.toList_ofList] at hform
    rw [hform]
    exact List.forall_mem_cons.2 ⟨.inr (.inr rfl), fun c hc => .inl (hdigits c hc)⟩

theorem Integer.ne_nil (h : Integer (String.ofList cs) n) : cs ≠ [] := by
  rintro rfl
  rcases h with ⟨k, ⟨digits, hne, -, hform, -⟩, -⟩ | ⟨digits, -, -, hform, -⟩
  · rcases hform with hform | hform
    · exact hne hform.symm
    · cases hform
  · cases hform

/-! ### Pieces -/

/-- The piece stands for the integers: for one that it spells, or for so many from a first one on in equal steps. The
integers wrap at 32 bits. -/
inductive Spells : List Char → List Int32 → Prop
  | literal {cs : List Char} {value : Int32} (h : Integer (String.ofList cs) value.toInt) : Spells cs [value]
  | group {start count step : List Char} {first distance : Int32} {k : Nat}
      (hplus : ∀ part ∈ [start, count, step], part.head? ≠ some '+')
      (hstart : Integer (String.ofList start) first.toInt) (hcount : Decimal (String.ofList count) k) (hk : k ≤ 4096)
      (hstep : Integer (String.ofList step) distance.toInt) :
      Spells (start ++ '(' :: (count ++ ',' :: (step ++ [')'])))
        ((List.range k).map fun i : Nat => Int32.ofInt (first.toInt + i * distance.toInt))

theorem progression_eq (step : Int32) (k : Nat) (first : Int32) :
    progression step k first = (List.range k).map fun i : Nat => Int32.ofInt (first.toInt + i * step.toInt) := by
  induction k generalizing first with
  | zero => rfl
  | succ k ih =>
      rw [progression, ih, List.range_succ_eq_map, List.map_cons, List.map_map]
      congr 1
      · simp
      · refine List.map_congr_left fun i _ => ?_
        have hnext : first.toInt + ((i + 1 : Nat) : Int) * step.toInt =
            first.toInt + (step.toInt + (i : Int) * step.toInt) := by
          rw [Int.natCast_add, Int.add_mul, Int.natCast_one, Int.one_mul, Int.add_comm step.toInt]
        rw [Function.comp_apply, Nat.succ_eq_add_one, hnext, ← Int.add_assoc, Int32.ofInt_add,
          Int32.ofInt_add _ (_ * _), Int32.ofInt_add, Int32.ofInt_toInt, Int32.ofInt_toInt, Int32.ofInt_toInt]

theorem expandGroup_eq_ok_iff : expandGroup token g = .ok values ↔
    ∃ first distance : Int32, ∃ k : Nat, Integer (String.ofList g.start) first.toInt ∧
      Decimal (String.ofList g.count) k ∧ k ≤ 4096 ∧ Integer (String.ofList g.step) distance.toInt ∧
      values = (List.range k).map fun i : Nat => Int32.ofInt (first.toInt + i * distance.toInt) := by
  simp only [← progression_eq, expandGroup, bind_eq_ok_iff, mapError_eq_ok_iff, readInt32_eq_ok_iff,
    readUInt64_eq_ok_iff]
  constructor
  · rintro ⟨first, hstart, count, hcount, h⟩
    split at h
    · cases h
    · next hk =>
      obtain ⟨distance, hread, hvalues⟩ := bind_eq_ok_iff.1 h
      rw [mapError_eq_ok_iff, readInt32_eq_ok_iff] at hread
      cases hvalues
      exact ⟨first, distance, count.toNat, hstart, hcount, Nat.not_lt.1 hk, hread, rfl⟩
  · rintro ⟨first, distance, k, hstart, hcount, hk, hstep, rfl⟩
    have hsize : (UInt64.ofNat k).toNat = k := UInt64.toNat_ofNat_of_lt' (Nat.lt_of_le_of_lt hk (by decide))
    refine ⟨first, hstart, UInt64.ofNat k, by rwa [hsize], ?_⟩
    have hallowed : ¬k > maxRepeat := Nat.not_lt.2 hk
    rw [hsize, if_neg hallowed, bind_eq_ok_iff]
    exact ⟨distance, mapError_eq_ok_iff.2 (readInt32_eq_ok_iff.2 hstep), rfl⟩

/-- A piece with parentheses is no number. -/
theorem Integer.no_group (h : Integer (String.ofList cs) n) : RepeatGroup.ofChars? cs = none := by
  refine Option.eq_none_iff_forall_ne_some.2 fun g hg => ?_
  obtain ⟨rfl, -⟩ := RepeatGroup.ofChars?_eq_some_iff.1 hg
  have hopen : '(' ∈ g.text := List.mem_append_right _ List.mem_cons_self
  rcases h.mem '(' hopen with hdigit | hsign | hsign
  · revert hdigit
    decide
  · cases hsign
  · cases hsign

theorem Spells.expand (h : Spells cs values) : expand (String.ofList cs) = .ok values := by
  unfold Text.expand
  rw [String.toList_ofList]
  cases h with
  | literal h => rw [h.no_group, readInt32_eq_ok_iff.2 h]
  | @group start count step first distance k hplus hstart hcount hk hstep =>
      obtain ⟨hplus₁, hplus₂, hplus₃⟩ : start.head? ≠ some '+' ∧ count.head? ≠ some '+' ∧ step.head? ≠ some '+' := by
        simpa using hplus
      have hread : RepeatGroup.ofChars? (start ++ '(' :: (count ++ ',' :: (step ++ [')']))) =
          some ⟨start, count, step⟩ :=
        RepeatGroup.ofChars?_eq_some_iff.2
          ⟨rfl, hstart.isSigned hplus₁, hcount.isDigits hplus₂, hstep.isSigned hplus₃⟩
      rw [hread]
      exact expandGroup_eq_ok_iff.2 ⟨first, distance, k, hstart, hcount, hk, hstep, rfl⟩

theorem spells_of_expand (h : expand token = .ok values) : Spells token.toList values := by
  unfold expand at h
  split at h
  · next g hg =>
    obtain ⟨htext, hform⟩ := RepeatGroup.ofChars?_eq_some_iff.1 hg
    obtain ⟨first, distance, k, hstart, hcount, hk, hstep, rfl⟩ := expandGroup_eq_ok_iff.1 h
    rw [htext]
    refine .group ?_ hstart hcount hk hstep
    simp only [List.forall_mem_cons]
    exact ⟨hform.start.no_plus, hform.count.head?_ne (by decide), hform.step.no_plus, List.forall_mem_nil _⟩
  · split at h
    · next value hread =>
      cases h
      exact .literal (by rwa [String.ofList_toList, ← readInt32_eq_ok_iff])
    · cases h

theorem expand_eq_ok_iff : expand token = .ok values ↔ Spells token.toList values := by
  refine ⟨spells_of_expand, fun h => ?_⟩
  have hread := h.expand
  rwa [String.ofList_toList] at hread

theorem Spells.length_le (h : Spells cs values) : values.length ≤ 4096 := by
  cases h with
  | literal h => exact Nat.le_of_ble_eq_true rfl
  | group hplus hstart hcount hk hstep => rwa [List.length_map, List.length_range]

theorem Integer.plain (h : Integer (String.ofList cs) n) : ∀ c ∈ cs, c ≠ ',' ∧ c ≠ '(' ∧ c ≠ ')' ∧ ¬Chars.IsGap c := by
  intro c hc
  rcases h.mem c hc with hdigit | rfl | rfl
  · refine ⟨?_, ?_, ?_, ?_⟩
    · rintro rfl; cases hdigit
    · rintro rfl; cases hdigit
    · rintro rfl; cases hdigit
    · rintro (rfl | rfl) <;> cases hdigit
  · decide
  · decide

theorem Decimal.integer {s : String} (h : Decimal s k) : Integer s k :=
  .inl ⟨k, h, rfl⟩

/-- A number does not open parentheses, and a group closes those that it opens. -/
theorem Spells.isPiece (h : Spells cs values) : Chars.IsPiece cs ∧ Chars.depthAfter 0 cs = 0 := by
  have hwhole : ∀ {cs : List Char} {n : Int}, Integer (String.ofList cs) n → ∀ depth,
      Chars.Whole depth cs ∧ Chars.depthAfter depth cs = depth := fun hn =>
    Chars.whole_of_plain fun c hc => (hn.plain c hc).2
  cases h with
  | literal h =>
      obtain ⟨hcs, hdepth⟩ := hwhole h 0
      exact ⟨⟨h.ne_nil, hcs, fun c hc => (h.plain c (List.mem_of_getLast? hc)).1⟩, hdepth⟩
  | @group start count step first distance k hplus hstart hcount hk hstep =>
      obtain ⟨hstart', hdepth₁⟩ := hwhole hstart 0
      -- One parenthesis is open around the count and the step.
      obtain ⟨hcount', hdepth₂⟩ := hwhole hcount.integer 1
      obtain ⟨hstep', hdepth₃⟩ := hwhole hstep 1
      have hopen : Chars.nextDepth 0 '(' = 1 := rfl
      have hcomma : Chars.nextDepth 1 ',' = 1 := rfl
      have hclose : Chars.nextDepth 1 ')' = 0 := rfl
      refine ⟨⟨by simp, ?_, fun c hc => ?_⟩, ?_⟩
      · simp only [Chars.whole_append, Chars.whole_cons, hdepth₁, hopen, hdepth₂, hcomma, hdepth₃]
        exact ⟨hstart', by decide, hcount', by decide, hstep', by decide, trivial⟩
      · have hlast : c = ')' := by simpa [List.getLast?_cons] using hc.symm
        rw [hlast]
        decide
      · simp only [Chars.depthAfter_append, Chars.depthAfter_cons, hdepth₁, hopen, hdepth₂, hcomma, hdepth₃, hclose]
        rfl

/-! ### Arguments -/

/-- The text consists of pieces that stand for the integers. There are gaps between them, and perhaps commas after
them. -/
inductive Spelling : List Char → List Int32 → Prop
  | done : Spelling [] []
  | gap {c : Char} {cs : List Char} {values : List Int32} (hc : Chars.IsGap c) (h : Spelling cs values) :
      Spelling (c :: cs) values
  | piece {piece commas cs : List Char} {part values : List Int32} (hpiece : Spells piece part)
      (hcommas : ∀ c ∈ commas, c = ',') (hcs : ∀ c ∈ cs.head?, Chars.IsGap c) (h : Spelling cs values) :
      Spelling (piece ++ commas ++ cs) (part ++ values)

theorem numbers_cons_eq_ok_iff {rest : List String} : numbers (token :: rest) = .ok values ↔
    ∃ part more, expand token = .ok part ∧ numbers rest = .ok more ∧ values = part ++ more := by
  rw [numbers, bind_eq_ok_iff]
  simp only [bind_eq_ok_iff]
  constructor
  · rintro ⟨part, hpart, more, hmore, ⟨⟩⟩
    exact ⟨part, more, hpart, hmore, rfl⟩
  · rintro ⟨part, more, hpart, hmore, rfl⟩
    exact ⟨part, hpart, more, hmore, rfl⟩

theorem numbers_eq_ok_iff {pieces : List String} : numbers pieces = .ok values ↔
    ∃ parts, List.Forall₂ (fun piece part => expand piece = .ok part) pieces parts ∧ values = parts.flatten := by
  induction pieces generalizing values with
  | nil =>
      rw [numbers]
      constructor
      · rintro ⟨⟩
        exact ⟨[], .nil, rfl⟩
      · rintro ⟨parts, ⟨⟩, rfl⟩
        rfl
  | cons piece pieces ih =>
      rw [numbers_cons_eq_ok_iff]
      constructor
      · rintro ⟨part, more, hpart, hmore, rfl⟩
        obtain ⟨parts, hparts, rfl⟩ := ih.1 hmore
        exact ⟨part :: parts, .cons hpart hparts, rfl⟩
      · rintro ⟨parts, hparts, rfl⟩
        cases hparts with
        | cons hpart hparts => exact ⟨_, _, hpart, ih.2 ⟨_, hparts, rfl⟩, List.flatten_cons⟩

theorem numbers_eq_error_iff {pieces : List String} :
    (∃ e, numbers pieces = .error e) ↔ ∃ piece ∈ pieces, ∃ e, expand piece = .error e := by
  induction pieces with
  | nil => simp [numbers]
  | cons piece pieces ih =>
      rw [List.exists_mem_cons_iff, ← ih, numbers]
      cases expand piece with
      | error e => simp [bind, Except.bind]
      | ok part => cases numbers pieces <;> simp [bind, Except.bind, pure, Except.pure]

theorem Spelling.numbers (h : Spelling cs values) :
    numbers ((Chars.arguments cs).map String.ofList) = .ok values := by
  induction h with
  | done => rfl
  | gap hc h ih => rwa [Chars.arguments_cons_gap hc]
  | piece hpiece hcommas hcs h ih =>
      obtain ⟨hwhole, hdepth⟩ := hpiece.isPiece
      rw [hwhole.arguments_append hdepth hcommas hcs, List.map_cons, numbers_cons_eq_ok_iff]
      exact ⟨_, _, hpiece.expand, ih, rfl⟩

/-! ### Writing integers -/

def writeInteger (value : Int32) : List Char :=
  let digits := Nat.toDigits 10 value.toInt.natAbs
  if value.toInt < 0 then '-' :: digits else digits

/-- The integers, with a space after each of them. -/
def writeIntegers (values : List Int32) : List Char :=
  values.flatMap fun value => writeInteger value ++ [' ']

theorem integer_writeInteger (value : Int32) : Integer (String.ofList (writeInteger value)) value.toInt := by
  have hdigits : ∀ d ∈ Nat.toDigits 10 value.toInt.natAbs, d.isDigit = true :=
    fun d hd => Nat.isDigit_of_mem_toDigits (by decide) (by decide) hd
  have hvalue : Nat.ofDigitChars 10 (Nat.toDigits 10 value.toInt.natAbs) 0 = value.toInt.natAbs :=
    Nat.ofDigitChars_ten_toDigits
  unfold writeInteger Integer
  rw [String.toList_ofList]
  split
  · next hneg => exact .inr ⟨_, Nat.toDigits_ne_nil, hdigits, rfl, by rw [hvalue]; omega⟩
  · next hnonneg =>
    exact .inl ⟨_, ⟨_, Nat.toDigits_ne_nil, hdigits, .inl String.toList_ofList, hvalue⟩, by omega⟩

theorem spelling_writeIntegers (values : List Int32) : Spelling (writeIntegers values) values := by
  induction values with
  | nil => exact .done
  | cons value values ih =>
      have hword := Spells.literal (integer_writeInteger value)
      have hcons := Spelling.piece hword (List.forall_mem_nil (· = ',')) (by simp [Chars.IsGap]) (.gap (.inl rfl) ih)
      rwa [List.append_nil, ← List.singleton_append, ← List.append_assoc] at hcons

/-! ### Lines -/

theorem numbers_singleton (piece : String) : Text.numbers [piece] = expand piece := by
  rw [Text.numbers, Text.numbers]
  cases expand piece with
  | error e => rfl
  | ok part => exact congrArg Except.ok (List.append_nil part)

namespace Line
variable {l : Line} {piece : String}

theorem numbers_eq_ok_iff : l.numbers = .ok values ↔ Text.numbers l.arguments = .ok values :=
  mapError_eq_ok_iff

theorem numbers_eq_error_iff : (∃ e, l.numbers = .error e) ↔ ∃ e, Text.numbers l.arguments = .error e := by
  unfold numbers
  cases Text.numbers l.arguments with
  | error e => exact iff_of_true ⟨_, rfl⟩ ⟨e, rfl⟩
  | ok values => exact iff_of_false (fun ⟨_, h⟩ => nomatch h) fun ⟨_, h⟩ => nomatch h

/-- A piece is read in the same way on a line of its own. -/
theorem numbers_alone (h : piece ∈ l.arguments) : Text.numbers ({ l with args := piece }).arguments = expand piece := by
  have halone : ({ l with args := piece }).arguments = [piece] := arguments_of_mem h
  rw [halone, numbers_singleton]

theorem numbers_of_spelling (h : Spelling l.args.toList values) : l.numbers = .ok values :=
  numbers_eq_ok_iff.2 h.numbers

/-- Integers that are written out are read again. -/
theorem numbers_writeIntegers (l : Line) (values : List Int32) :
    ({ l with args := String.ofList (writeIntegers values) }).numbers = .ok values := by
  refine numbers_of_spelling ?_
  rw [String.toList_ofList]
  exact spelling_writeIntegers values

/-- A line reads as the integers that it spells. Whatever it reads as are the integers of its pieces, one piece after
another, and at most 4096 for each; it cannot be read exactly if there is a piece that cannot be read. -/
theorem numbers_decode (l : Line) (values : List Int32) :
    (Spelling l.args.toList values → l.numbers = .ok values) ∧
    (l.numbers = .ok values → ∃ parts, values = parts.flatten ∧
      List.Forall₂ (fun piece part => ({ l with args := piece }).numbers = .ok part ∧ part.length ≤ 4096)
        l.arguments parts) ∧
    ((∃ e, l.numbers = .error e) ↔ ∃ piece ∈ l.arguments, ∃ e, ({ l with args := piece }).numbers = .error e) := by
  refine ⟨numbers_of_spelling, fun h => ?_, ?_⟩
  · obtain ⟨parts, hparts, hvalues⟩ := Text.numbers_eq_ok_iff.1 (numbers_eq_ok_iff.1 h)
    have hmem := (List.forall₂_and_left _ _).2 ⟨fun piece (hpiece : piece ∈ l.arguments) => hpiece, hparts⟩
    refine ⟨parts, hvalues, hmem.imp fun piece part ⟨hpiece, hread⟩ => ⟨?_, (spells_of_expand hread).length_le⟩⟩
    rw [numbers_eq_ok_iff, numbers_alone hpiece, hread]
  · rw [numbers_eq_error_iff, Text.numbers_eq_error_iff]
    refine exists_congr fun piece => and_congr_right fun hpiece => ?_
    rw [numbers_eq_error_iff, numbers_alone hpiece]

/-- Gaps of both kinds, commas, and groups of which one has no integers. -/
theorem numbers_decode_groups : Spelling " 3 -2,\t10(3,-1),,  7(0,5)".toList [3, -2, 10, 9, 8] ∧
    (⟨1, "Frames", " 3 -2,\t10(3,-1),,  7(0,5)"⟩ : Line).numbers = .ok [3, -2, 10, 9, 8] := by
  have hthree : Spells "3".toList [3] := expand_eq_ok_iff.1 rfl
  have htwo : Spells "-2".toList [-2] := expand_eq_ok_iff.1 rfl
  have hten : Spells "10(3,-1)".toList [10, 9, 8] := expand_eq_ok_iff.1 rfl
  have hnone : Spells "7(0,5)".toList [] := expand_eq_ok_iff.1 rfl
  have hend : ∀ {c : Char} {cs : List Char}, Chars.IsGap c → ∀ d ∈ (c :: cs).head?, Chars.IsGap d := by
    rintro c cs hc d ⟨⟩
    exact hc
  have hlast : Spelling "  7(0,5)".toList [] :=
    .gap (.inl rfl) (.gap (.inl rfl) (@Spelling.piece _ [] [] [] [] hnone (by simp) (by simp) .done))
  have hmiddle : Spelling "\t10(3,-1),,  7(0,5)".toList [10, 9, 8] :=
    .gap (.inr rfl) (@Spelling.piece _ [',', ','] _ _ [] hten (by simp) (hend (.inl rfl)) hlast)
  have hsecond : Spelling " -2,\t10(3,-1),,  7(0,5)".toList [-2, 10, 9, 8] :=
    .gap (.inl rfl) (@Spelling.piece _ [','] _ _ _ htwo (by simp) (hend (.inr rfl)) hmiddle)
  have hall : Spelling " 3 -2,\t10(3,-1),,  7(0,5)".toList [3, -2, 10, 9, 8] :=
    .gap (.inl rfl) (@Spelling.piece _ [] _ _ _ hthree (by simp) (hend (.inl rfl)) hsecond)
  exact ⟨hall, (numbers_decode _ _).1 hall⟩

end Line

end Text
end Adventure
