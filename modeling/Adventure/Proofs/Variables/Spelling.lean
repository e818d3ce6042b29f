import Adventure.Proofs.Text.Blank
import Adventure.Variables.Basic
/-! Spellings of names. The case of its letters and the blanks around it make no difference to a name, neither by
itself nor in the words of a condition or a change. -/
namespace Adventure

/-! ### Letters -/

namespace Text

/-- Only a small letter becomes another character. -/
theorem toUpper_eq_iff {c d : Char} (hd : d.toNat < 'A'.toNat) : c.toUpper = d ↔ c = d := by
  have hA : 'A'.toNat = 65 := by decide
  rw [← Char.toNat_inj, ← Char.toNat_inj, toNat_toUpper]
  split <;> omega

theorem isDigit_iff (c : Char) : c.isDigit = true ↔ 48 ≤ c.toNat ∧ c.toNat ≤ 57 := by
  simp [Char.isDigit, UInt32.le_iff_toNat_le]

theorem digit?_toUpper (c : Char) : digit? c.toUpper = digit? c := by
  by_cases h : c.isDigit = true
  · have hsame : c.toUpper = c := by
      rw [isDigit_iff] at h
      rw [← Char.toNat_inj, toNat_toUpper, if_neg (by omega)]
    rw [hsame]
  · have hupper : ¬c.toUpper.isDigit = true := by
      rw [isDigit_iff] at h ⊢
      rw [toNat_toUpper]
      split <;> omega
    rw [digit?, digit?, if_neg h, if_neg hupper]

theorem readDigits_map_toUpper (limit : Nat) (overflow : NumberError) (value : Nat) (cs : List Char) :
    readDigits limit overflow value (cs.map Char.toUpper) = readDigits limit overflow value cs := by
  induction cs generalizing value with
  | nil => rfl
  | cons c cs ih => simp only [List.map_cons, readDigits, digit?_toUpper, ih]

theorem readMagnitude_map_toUpper (limit : Nat) (overflow : NumberError) (cs : List Char) :
    readMagnitude limit overflow (cs.map Char.toUpper) = readMagnitude limit overflow cs := by
  cases cs with
  | nil => rfl
  | cons c cs => exact readDigits_map_toUpper limit overflow 0 (c :: cs)

theorem readInt_upper (half : Nat) (s : String) : readInt half (upper s) = readInt half s := by
  unfold readInt upper
  rw [String.toList_ofList]
  cases s.toList with
  | nil => rfl
  | cons c cs =>
      by_cases hplus : c = '+'
      · subst hplus
        exact congrArg (Except.map Int.ofNat) (readMagnitude_map_toUpper _ _ cs)
      · by_cases hminus : c = '-'
        · subst hminus
          exact congrArg (Except.map fun n => -Int.ofNat n) (readMagnitude_map_toUpper _ _ cs)
        · have hplus' : c.toUpper ≠ '+' := mt (toUpper_eq_iff (by decide)).1 hplus
          have hminus' : c.toUpper ≠ '-' := mt (toUpper_eq_iff (by decide)).1 hminus
          have hrest := readMagnitude_map_toUpper (half - 1) .tooLarge (c :: cs)
          simp_all

theorem upper_upper (s : String) : upper (upper s) = upper s := by
  have hupper : Char.toUpper ∘ Char.toUpper = Char.toUpper := funext toUpper_toUpper
  simp only [upper, String.toList_ofList, List.map_map, hupper]

theorem trim_upper (s : String) : trim (upper s) = upper (trim s) := by
  simp only [trim, upper, String.toList_ofList, Chars.trim_map_toUpper]

end Text

namespace Chars

theorem cut?_map_toUpper {d : Char} (hd : d.toNat < 'A'.toNat) (cs : List Char) :
    cut? (· == d) (cs.map Char.toUpper) =
      (cut? (· == d) cs).map fun (a, b) => (a.map Char.toUpper, b.map Char.toUpper) := by
  have hsame : (fun c => !(c == d)) ∘ Char.toUpper = fun c => !(c == d) := by
    funext c
    have hc : (c.toUpper == d) = (c == d) := by
      rw [Bool.eq_iff_iff, beq_iff_eq, beq_iff_eq, Text.toUpper_eq_iff hd]
    exact congrArg not hc
  simp only [cut?, List.dropWhile_map, List.takeWhile_map, hsame]
  cases cs.dropWhile fun c => !(c == d) <;> rfl

end Chars

/-! ### Names -/

/-- The names are the same but for the case of their letters and the blanks around them. -/
def SameName (a b : String) : Prop :=
  Text.upper (Text.trim a) = Text.upper (Text.trim b)

instance (a b : String) : Decidable (SameName a b) :=
  inferInstanceAs (Decidable (_ = _))

theorem SameName.key_eq {a b : String} (h : SameName a b) : variableKey a = variableKey b := h

theorem variableKey_upper (name : String) : variableKey (Text.upper name) = variableKey name := by
  rw [variableKey, Text.trim_upper, Text.upper_upper, variableKey]

/-! ### Words -/

/-- The words of the texts are the same but for the case of their letters. -/
def SameWords (s t : String) : Prop :=
  (Text.words s).map Text.upper = (Text.words t).map Text.upper

instance (s t : String) : Decidable (SameWords s t) :=
  inferInstanceAs (Decidable (_ = _))

theorem literal?_upper (s : String) : literal? (Text.upper s) = literal? s := by
  unfold literal?
  rw [Text.trim_upper, Text.readWide, Text.readInt_upper, Text.readWide]

namespace Token

/-- The token in capitals. -/
def upper : Token → Token
  | .nonzero name => .nonzero (Text.upper name)
  | .isZero name => .isZero (Text.upper name)
  | .equals name value => .equals (Text.upper name) (Text.upper value)
  | .reserved => .reserved

/-- The characters that no name starts with in a condition or a change. -/
def signs : List Char := ['!', '=', '*', '+', '@']

theorem ofChars_of_not_mem_signs {c : Char} (h : c ∉ signs) (cs : List Char) :
    ofChars (c :: cs) = .nonzero (String.ofList (c :: cs)) := by
  simp only [signs, List.mem_cons, List.not_mem_nil, or_false, not_or] at h
  simp [ofChars, h]

theorem toUpper_of_mem_signs {c : Char} (h : c ∈ signs) : c.toUpper = c := by
  have hall : signs.all (fun d => d.toUpper == d) = true := by decide
  exact eq_of_beq (List.all_eq_true.1 hall c h)

theorem toUpper_not_mem_signs {c : Char} (h : c ∉ signs) : c.toUpper ∉ signs := by
  have hsmall : signs.all (fun d => decide (d.toNat < 'A'.toNat)) = true := by decide
  intro hmem
  have hlt := of_decide_eq_true (List.all_eq_true.1 hsmall _ hmem)
  have hsame := (Text.toUpper_eq_iff hlt).1 rfl
  rw [← hsame] at hmem
  exact h hmem

theorem ofChars_map_toUpper (cs : List Char) : ofChars (cs.map Char.toUpper) = (ofChars cs).upper := by
  cases cs with
  | nil => rfl
  | cons c cs =>
      rw [List.map_cons]
      by_cases h : c ∈ signs
      · rw [toUpper_of_mem_signs h]
        simp only [signs, List.mem_cons, List.not_mem_nil, or_false] at h
        rcases h with rfl | rfl | rfl | rfl | rfl
        · simp [ofChars, upper, Text.upper]
        · simp only [ofChars, Chars.cut?_map_toUpper (d := ',') (by decide) cs]
          cases Chars.cut? (· == ',') cs <;> simp [upper, Text.upper]
        all_goals rfl
      · rw [ofChars_of_not_mem_signs h, ofChars_of_not_mem_signs (toUpper_not_mem_signs h)]
        simp [upper, Text.upper]

theorem holds_upper {value : String → UInt8} (h : ∀ name, value (Text.upper name) = value name) (t : Token) :
    t.upper.holds value = t.holds value := by
  cases t <;> simp only [upper, holds, h, literal?_upper]

theorem write?_upper (t : Token) :
    t.upper.write? = t.write?.map fun (name, value) => (Text.upper name, value) := by
  cases t with
  | equals name value =>
      simp only [upper, write?, literal?_upper]
      cases literal? value <;> rfl
  | _ => rfl

/-- The tokens of a text, in capitals, are those of its words in capitals. -/
theorem ofText_map_upper (text : String) :
    (ofText text).map upper = ((Text.words text).map Text.upper).map fun word => ofChars word.toList := by
  simp only [ofText, Text.words, List.map_map]
  refine List.map_congr_left fun word _ => ?_
  simp [Text.upper, ofChars_map_toUpper]

theorem ofText_same {s t : String} (h : SameWords s t) : (ofText s).map upper = (ofText t).map upper := by
  rw [ofText_map_upper, ofText_map_upper, h]

end Token
end Adventure
