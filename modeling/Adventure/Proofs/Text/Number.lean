import Adventure.Text.Number
/-! What the readers of numbers accept: a run of decimal digits, with zeros in front of it or not, perhaps after a
sign, whose value is within the limit. -/
namespace Adventure

/-! ### Results -/

theorem bind_eq_ok_iff {ε α β : Type} {x : Except ε α} {f : α → Except ε β} {b : β} :
    (x >>= f) = .ok b ↔ ∃ a, x = .ok a ∧ f a = .ok b := by
  cases x with
  | error e => simp [bind, Except.bind]
  | ok a => simp [bind, Except.bind]

theorem map_eq_ok_iff {ε α β : Type} {x : Except ε α} {f : α → β} {b : β} :
    x.map f = .ok b ↔ ∃ a, x = .ok a ∧ f a = b := by
  cases x with
  | error e => simp [Except.map]
  | ok a => simp [Except.map]

theorem mapError_eq_ok_iff {ε δ α : Type} {x : Except ε α} {f : ε → δ} {a : α} :
    x.mapError f = .ok a ↔ x = .ok a := by
  cases x with
  | error e => exact iff_of_false (fun h => nomatch h) fun h => nomatch h
  | ok b =>
      constructor
      · rintro ⟨⟩
        rfl
      · rintro ⟨⟩
        rfl

namespace Text

/-! ### Natural numbers -/

/-- The text is a natural number in decimal digits, perhaps with a `+` in front of it. -/
def Decimal (s : String) (n : Nat) : Prop :=
  ∃ digits : List Char, digits ≠ [] ∧ (∀ d ∈ digits, d.isDigit = true) ∧
    (s.toList = digits ∨ s.toList = '+' :: digits) ∧ Nat.ofDigitChars 10 digits 0 = n

variable {limit value n : Nat} {overflow : NumberError} {digits : List Char}

theorem digit?_of_isDigit {c : Char} (h : c.isDigit = true) : digit? c = some (c.toNat - '0'.toNat) :=
  if_pos h

theorem digit?_of_not_isDigit {c : Char} (h : ¬c.isDigit = true) : digit? c = none :=
  if_neg h

theorem le_ofDigitChars (digits : List Char) (value : Nat) : value ≤ Nat.ofDigitChars 10 digits value := by
  induction digits generalizing value with
  | nil => exact Nat.le_refl value
  | cons c digits ih =>
      rw [Nat.ofDigitChars_cons]
      have hrest := ih (10 * value + (c.toNat - '0'.toNat))
      omega

theorem readDigits_eq_ok_iff (hvalue : value ≤ limit) : readDigits limit overflow value digits = .ok n ↔
    (∀ d ∈ digits, d.isDigit = true) ∧ Nat.ofDigitChars 10 digits value = n ∧ n ≤ limit := by
  induction digits generalizing value with
  | nil =>
      simp only [readDigits, Except.ok.injEq, Nat.ofDigitChars_nil]
      constructor
      · rintro rfl
        exact ⟨by simp, rfl, hvalue⟩
      · exact fun h => h.2.1
  | cons c digits ih =>
      rw [readDigits, List.forall_mem_cons, Nat.ofDigitChars_cons, Nat.mul_comm 10 value]
      by_cases hc : c.isDigit = true
      · simp only [digit?_of_isDigit hc, hc, true_and]
        split
        · next hle => exact ih hle
        · next hlarge =>
          -- A number that is too large already does not get smaller.
          refine iff_of_false (fun h => nomatch h) fun ⟨_, hn, hle⟩ => hlarge ?_
          have hgrows := le_ofDigitChars digits (value * 10 + (c.toNat - '0'.toNat))
          omega
      · simp [digit?_of_not_isDigit hc, hc]

theorem readMagnitude_eq_ok_iff : readMagnitude limit overflow digits = .ok n ↔
    digits ≠ [] ∧ (∀ d ∈ digits, d.isDigit = true) ∧ Nat.ofDigitChars 10 digits 0 = n ∧ n ≤ limit := by
  cases digits with
  | nil => simp [readMagnitude]
  | cons c digits =>
      change readDigits limit overflow 0 (c :: digits) = .ok n ↔ _
      rw [readDigits_eq_ok_iff (Nat.zero_le limit)]
      simp

theorem readNat_eq_ok_iff {s : String} : readNat limit s = .ok n ↔ Decimal s n ∧ n ≤ limit := by
  unfold readNat Decimal
  split
  · next hs =>
    refine iff_of_false (fun h => nomatch h) fun ⟨⟨digits, hne, _, hform, _⟩, _⟩ => ?_
    rw [hs] at hform
    exact hform.elim (fun h => hne h.symm) fun h => nomatch h
  · next cs hs =>
    rw [readMagnitude_eq_ok_iff, hs]
    constructor
    · rintro ⟨hne, hdigits, hn, hle⟩
      exact ⟨⟨cs, hne, hdigits, .inr rfl, hn⟩, hle⟩
    · rintro ⟨⟨digits, hne, hdigits, hform, hn⟩, hle⟩
      rcases hform with rfl | hform
      · have hplus := hdigits '+' List.mem_cons_self
        cases hplus
      · cases hform
        exact ⟨hne, hdigits, hn, hle⟩
  · next cs hne hplus =>
    rw [readMagnitude_eq_ok_iff]
    constructor
    · rintro ⟨hne, hdigits, hn, hle⟩
      exact ⟨⟨s.toList, hne, hdigits, .inl rfl, hn⟩, hle⟩
    · rintro ⟨⟨digits, hne, hdigits, hform, hn⟩, hle⟩
      rcases hform with rfl | hform
      · exact ⟨hne, hdigits, hn, hle⟩
      · exact absurd hform (hplus digits)

/-- A word reads the naturals that fit into it. -/
theorem readNat_map_eq_ok_iff {α : Type} {s : String} {size : Nat} {ofNat : Nat → α} {toNat : α → Nat}
    (hlt : ∀ a, toNat a < size) (hto : ∀ n, n < size → toNat (ofNat n) = n) (hof : ∀ a, ofNat (toNat a) = a)
    {a : α} : (readNat (size - 1) s).map ofNat = .ok a ↔ Decimal s (toNat a) := by
  have hsize := hlt a
  rw [map_eq_ok_iff]
  constructor
  · rintro ⟨n, hread, rfl⟩
    obtain ⟨hdecimal, hle⟩ := readNat_eq_ok_iff.1 hread
    rwa [hto n (by omega)]
  · intro h
    exact ⟨toNat a, readNat_eq_ok_iff.2 ⟨h, Nat.le_sub_one_of_lt hsize⟩, hof a⟩

theorem readUInt16_eq_ok_iff {s : String} {v : UInt16} : readUInt16 s = .ok v ↔ Decimal s v.toNat :=
  readNat_map_eq_ok_iff UInt16.toNat_lt (fun _ h => UInt16.toNat_ofNat_of_lt' h) fun _ => UInt16.ofNat_toNat

theorem readUInt64_eq_ok_iff {s : String} {v : UInt64} : readUInt64 s = .ok v ↔ Decimal s v.toNat :=
  readNat_map_eq_ok_iff UInt64.toNat_lt (fun _ h => UInt64.toNat_ofNat_of_lt' h) fun _ => UInt64.ofNat_toNat

/-! ### Integers -/

/-- The text is an integer in decimal digits, perhaps with a sign in front of it. -/
def Integer (s : String) (n : Int) : Prop :=
  (∃ m : Nat, Decimal s m ∧ n = m) ∨
    ∃ digits : List Char, digits ≠ [] ∧ (∀ d ∈ digits, d.isDigit = true) ∧ s.toList = '-' :: digits ∧
      n = -(Nat.ofDigitChars 10 digits 0 : Int)

theorem Decimal.not_minus {s : String} (h : Decimal s n) (cs : List Char) : s.toList ≠ '-' :: cs := by
  obtain ⟨digits, -, hdigits, hform, -⟩ := h
  intro hminus
  rcases hform with hform | hform
  · rw [hform.symm.trans hminus] at hdigits
    have hdigit := hdigits '-' List.mem_cons_self
    cases hdigit
  · cases hform.symm.trans hminus

theorem readInt_of_minus {half : Nat} {s : String} {cs : List Char} (h : s.toList = '-' :: cs) :
    readInt half s = (readMagnitude half .tooSmall cs).map fun m => -Int.ofNat m := by
  unfold readInt
  rw [h]
  rfl

theorem readInt_of_not_minus {half : Nat} {s : String} (h : ∀ cs, s.toList ≠ '-' :: cs) :
    readInt half s = (readNat (half - 1) s).map Int.ofNat := by
  unfold readInt readNat
  split
  · next hempty => rw [hempty]; rfl
  · next hplus => rw [hplus]; rfl
  · next cs hminus => exact absurd hminus (h cs)
  · next hempty hplus _ =>
    split
    · next hempty' => exact absurd hempty' hempty
    · next cs hplus' => exact absurd hplus' (hplus cs)
    · rfl

theorem readInt_eq_ok_iff {half : Nat} (hhalf : 0 < half) {s : String} {n : Int} :
    readInt half s = .ok n ↔ Integer s n ∧ -(half : Int) ≤ n ∧ n < half := by
  by_cases hminus : ∃ cs, s.toList = '-' :: cs
  · obtain ⟨cs, hcs⟩ := hminus
    rw [readInt_of_minus hcs, map_eq_ok_iff]
    constructor
    · rintro ⟨m, hread, rfl⟩
      obtain ⟨hne, hdigits, rfl, hle⟩ := readMagnitude_eq_ok_iff.1 hread
      exact ⟨.inr ⟨cs, hne, hdigits, hcs, rfl⟩, by simp only [Int.ofNat_eq_natCast]; omega⟩
    · rintro ⟨⟨m, hdecimal, -⟩ | ⟨digits, hne, hdigits, hform, rfl⟩, hleast, -⟩
      · exact absurd hcs (hdecimal.not_minus cs)
      · cases hcs.symm.trans hform
        exact ⟨_, readMagnitude_eq_ok_iff.2 ⟨hne, hdigits, rfl, by omega⟩, rfl⟩
  · rw [readInt_of_not_minus fun cs hcs => hminus ⟨cs, hcs⟩, map_eq_ok_iff]
    constructor
    · rintro ⟨m, hread, rfl⟩
      obtain ⟨hdecimal, hle⟩ := readNat_eq_ok_iff.1 hread
      exact ⟨.inl ⟨m, hdecimal, rfl⟩, by simp only [Int.ofNat_eq_natCast]; omega⟩
    · rintro ⟨⟨m, hdecimal, rfl⟩ | ⟨digits, -, -, hform, -⟩, -, hlt⟩
      · exact ⟨m, readNat_eq_ok_iff.2 ⟨hdecimal, by omega⟩, rfl⟩
      · exact absurd ⟨digits, hform⟩ hminus

theorem readInt32_eq_ok_iff {s : String} {v : Int32} : readInt32 s = .ok v ↔ Integer s v.toInt := by
  have hleast := v.le_toInt
  have hgreatest := v.toInt_lt
  rw [readInt32, map_eq_ok_iff]
  constructor
  · rintro ⟨n, hread, rfl⟩
    obtain ⟨hinteger, hle, hlt⟩ := (readInt_eq_ok_iff (by decide)).1 hread
    rwa [Int32.toInt_ofInt_of_le (by omega) (by omega)]
  · intro h
    exact ⟨v.toInt, (readInt_eq_ok_iff (by decide)).2 ⟨h, by omega, by omega⟩, v.ofInt_toInt⟩

end Text
end Adventure
