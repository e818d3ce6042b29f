import Mathlib.Data.List.Forall2
import Adventure.Proofs.Text.Number
import Adventure.Proofs.Variables.Spelling
/-! The words of conditions and changes: which tokens they spell, which variables the tokens name and which values
they ask for. -/
namespace Adventure

namespace Chars
variable {p : Char → Bool} {cs before after : List Char}

theorem cut?_eq_some (h : cut? p cs = some (before, after)) :
    ∃ c, p c = true ∧ cs = before ++ c :: after ∧ ∀ d ∈ before, p d = false := by
  unfold cut? at h
  split at h
  · cases h
  · next c rest hrest =>
    cases h
    have hc : (!p c) = false := not_of_head?_dropWhile (p := fun d => !p d) (by rw [hrest]; rfl)
    refine ⟨c, by simpa using hc, ?_, fun d hd => by simpa using List.mem_takeWhile_imp hd⟩
    rw [← hrest, List.takeWhile_append_dropWhile]

theorem cut?_eq_none (h : cut? p cs = none) : ∀ c ∈ cs, p c = false := by
  unfold cut? at h
  split at h
  · next hnil => simpa using hnil
  · cases h

end Chars

/-- A literal is an integer from 0 to 255, perhaps with blanks around it. -/
theorem literal?_eq_some_iff {s : String} {value : UInt8} :
    literal? s = some value ↔ Text.Integer (Text.trim s) value.toNat := by
  have hvalue := value.toNat_lt
  unfold literal? Text.readWide
  constructor
  · intro h
    split at h
    · next n hread =>
      split at h
      · next hrange =>
        cases h
        have hn : ((n.toNat.toUInt8.toNat : Nat) : Int) = n := by
          rw [Nat.toUInt8_eq, UInt8.toNat_ofNat_of_lt' (by rw [UInt8.size]; omega)]
          omega
        rw [hn]
        exact ((Text.readInt_eq_ok_iff (by decide)).1 hread).1
      · cases h
    · cases h
  · intro h
    rw [(Text.readInt_eq_ok_iff (by decide)).2 ⟨h, by omega, by omega⟩]
    dsimp only
    rw [if_pos (by omega), Int.toNat_natCast]
    exact congrArg some UInt8.ofNat_toNat

namespace Token

/-! ### Words -/

/-- How a token is written. -/
inductive Spelt : List Char → Token → Prop
  | nonzero {cs : List Char} (h : ∀ c ∈ cs.head?, c ∉ signs) : Spelt cs (.nonzero (String.ofList cs))
  | isZero (cs : List Char) : Spelt ('!' :: cs) (.isZero (String.ofList cs))
  | equals {name : List Char} (h : ',' ∉ name) (literal : List Char) :
      Spelt ('=' :: (name ++ ',' :: literal)) (.equals (String.ofList name) (String.ofList literal))
  | noLiteral {name : List Char} (h : ',' ∉ name) : Spelt ('=' :: name) (.equals (String.ofList name) "")
  | reserved {c : Char} (h : c ∈ ['*', '+', '@']) (cs : List Char) : Spelt (c :: cs) .reserved

/-- The words of the text spell the tokens. -/
def Spells (text : String) (ts : List Token) : Prop :=
  ∃ ws, Chars.Words text.toList ws ∧ List.Forall₂ Spelt ws ts

theorem spelt_equals (cs : List Char) : Spelt ('=' :: cs) (ofChars ('=' :: cs)) := by
  cases hcut : Chars.cut? (· == ',') cs with
  | none =>
      have hname : ',' ∉ cs := fun hmem => by simpa using Chars.cut?_eq_none hcut ',' hmem
      have hchars : ofChars ('=' :: cs) = .equals (String.ofList cs) "" := by simp only [ofChars, hcut]
      rw [hchars]
      exact .noLiteral hname
  | some parts =>
      obtain ⟨name, literal⟩ := parts
      obtain ⟨c, hc, rfl, hbefore⟩ := Chars.cut?_eq_some hcut
      have hname : ',' ∉ name := fun hmem => by simpa using hbefore ',' hmem
      have hchars : ofChars ('=' :: (name ++ c :: literal)) =
          .equals (String.ofList name) (String.ofList literal) := by simp only [ofChars, hcut]
      rw [hchars, eq_of_beq hc]
      exact .equals hname literal

theorem spelt_ofChars (cs : List Char) : Spelt cs (ofChars cs) := by
  cases cs with
  | nil => exact .nonzero (by simp)
  | cons c cs =>
      by_cases hc : c ∈ signs
      · simp only [signs, List.mem_cons, List.not_mem_nil, or_false] at hc
        rcases hc with rfl | rfl | rfl | rfl | rfl
        · exact .isZero cs
        · exact spelt_equals cs
        · exact .reserved (by decide) cs
        · exact .reserved (by decide) cs
        · exact .reserved (by decide) cs
      · rw [ofChars_of_not_mem_signs hc]
        exact .nonzero (by simpa using hc)

theorem spells_ofText (text : String) : Spells text (ofText text) := by
  refine ⟨Chars.words text.toList, Chars.words_spec _, ?_⟩
  rw [ofText, List.forall₂_map_right_iff, List.forall₂_same]
  exact fun w _ => spelt_ofChars w

/-! ### Names and values -/

/-- The name in a token that is not reserved. -/
def name? : Token → Option String
  | .nonzero name => some name
  | .isZero name => some name
  | .equals name _ => some name
  | .reserved => none

/-- The token names the variable. Names of nothing but blanks are empty. -/
def Names (t : Token) (name : String) : Prop :=
  ∃ own ∈ t.name?, Text.trim own ≠ "" ∧ SameName own name

/-- The value that the token asks for. -/
inductive Asks : Token → UInt8 → Prop
  | nonzero (name : String) : Asks (.nonzero name) 1
  | isZero (name : String) : Asks (.isZero name) 0
  | equals (name : String) {literal : String} {value : UInt8}
      (h : Text.Integer (Text.trim literal) value.toNat) : Asks (.equals name literal) value

def Writes (t : Token) (name : String) (value : UInt8) : Prop :=
  t.Names name ∧ t.Asks value

/-- The token is not reserved, it has a name, and a literal that stands for a value if it needs one. -/
def IsWriting (t : Token) : Prop :=
  ∃ name value, t.Writes name value

variable {t : Token} {own name : String} {value : UInt8}

theorem write?_eq_some_iff : t.write? = some (own, value) ↔ own ∈ t.name? ∧ t.Asks value := by
  constructor
  · intro h
    cases t with
    | nonzero name => cases h; exact ⟨rfl, .nonzero _⟩
    | isZero name => cases h; exact ⟨rfl, .isZero _⟩
    | equals name literal =>
        obtain ⟨asked, hasked, heq⟩ := Option.map_eq_some_iff.1 h
        cases heq
        exact ⟨rfl, .equals _ (literal?_eq_some_iff.1 hasked)⟩
    | reserved => cases h
  · rintro ⟨hname, hasks⟩
    cases hasks with
    | nonzero => cases hname; rfl
    | isZero => cases hname; rfl
    | equals name hliteral =>
        cases hname
        rw [write?, literal?_eq_some_iff.2 hliteral]
        rfl

theorem writes_iff : t.Writes name value ↔
    ∃ own, t.write? = some (own, value) ∧ Text.trim own ≠ "" ∧ SameName own name := by
  constructor
  · rintro ⟨⟨own, hown, hne, hsame⟩, hasks⟩
    exact ⟨own, write?_eq_some_iff.2 ⟨hown, hasks⟩, hne, hsame⟩
  · rintro ⟨own, hwrite, hne, hsame⟩
    obtain ⟨hown, hasks⟩ := write?_eq_some_iff.1 hwrite
    exact ⟨⟨own, hown, hne, hsame⟩, hasks⟩

theorem isWriting_iff : t.IsWriting ↔ (t.write?.any fun write => Text.trim write.1 != "") = true := by
  rw [Option.any_eq_true]
  constructor
  · rintro ⟨name, value, hwrites⟩
    obtain ⟨own, hwrite, hne, -⟩ := writes_iff.1 hwrites
    exact ⟨(own, value), hwrite, bne_iff_ne.2 hne⟩
  · rintro ⟨⟨own, value⟩, hwrite, hne⟩
    exact ⟨own, value, writes_iff.2 ⟨own, hwrite, bne_iff_ne.1 hne, rfl⟩⟩

instance : DecidablePred IsWriting :=
  fun _ => decidable_of_iff _ isWriting_iff.symm

theorem Asks.unique {other : UInt8} (h : t.Asks value) (h' : t.Asks other) : value = other := by
  cases t with
  | nonzero name => cases h; cases h'; rfl
  | isZero name => cases h; cases h'; rfl
  | equals name literal =>
      obtain _ | _ | ⟨_, hvalue⟩ := h
      obtain _ | _ | ⟨_, hother⟩ := h'
      exact Option.some.inj ((literal?_eq_some_iff.2 hvalue).symm.trans (literal?_eq_some_iff.2 hother))
  | reserved => cases h

end Token
end Adventure
