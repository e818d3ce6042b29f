import Mathlib.Data.List.Induction
import Adventure.Proofs.Variables.Grammar
import Adventure.Proofs.Variables.Scopes
/-! A change and the condition of the same words. After a change every variable reads what the last word that names it
asked for; so, if no two words name the same variable, all that was asked for holds. -/
namespace Adventure.Variables

/-- The last of the tokens that write the variable asks for the value. -/
def LastWrites (ts : List Token) (name : String) (value : UInt8) : Prop :=
  ∃ before t after, ts = before ++ t :: after ∧ t.Writes name value ∧ ∀ u ∈ after, ∀ other, ¬u.Writes name other

/-- No variable is named by both tokens. -/
def Apart (t u : Token) : Prop :=
  ∀ name, t.Names name → ¬u.Names name

variable {v : Variables} {t : Token} {ts : List Token} {own name : String} {value : UInt8}

/-! ### Writes -/

theorem variableKey_eq_empty_iff (own : String) : variableKey own = "" ↔ Text.trim own = "" := by
  simp [variableKey, Text.upper, Text.trim]

theorem set_of_local (hne : Text.trim own ≠ "") (h : v.isLocal own = true) (value : UInt8) : v.set own value =
    { v with locals := v.locals.insert (variableKey own) value, lastChanged := v.lastChanged + 1 } := by
  have hkey : ¬(variableKey own).isEmpty = true := by rwa [String.isEmpty_iff, variableKey_eq_empty_iff]
  rw [set]
  simp only [if_neg hkey, if_pos h]

theorem set_of_global (hne : Text.trim own ≠ "") (h : ¬v.isLocal own = true) (value : UInt8) : v.set own value =
    { v with globals := v.globals.insert (variableKey own) value, lastChanged := v.lastChanged + 1 } := by
  have hkey : ¬(variableKey own).isEmpty = true := by rwa [String.isEmpty_iff, variableKey_eq_empty_iff]
  rw [set]
  simp only [if_neg hkey, if_neg h]

theorem set_of_blank (h : Text.trim own = "") (v : Variables) (value : UInt8) : v.set own value = v := by
  have hkey : (variableKey own).isEmpty = true := by rwa [String.isEmpty_iff, variableKey_eq_empty_iff]
  rw [set]
  simp only [if_pos hkey]

theorem get_of_local (h : v.isLocal name = true) : v.get name = (v.locals.get? (variableKey name)).getD 0 := by
  rw [get, h]
  rfl

theorem get_set_same (hne : Text.trim own ≠ "") (h : SameName own name) : (v.set own value).get name = value := by
  have hscope := (sameDeclarations_set v own value).isLocal_eq own
  rw [← get_same h]
  by_cases hlocal : v.isLocal own = true
  · rw [get_of_local (hscope.trans hlocal), set_of_local hne hlocal, Table.get?_insert_self]
    rfl
  · rw [get_of_not_local (hscope.trans (eq_false_of_ne_true hlocal)), set_of_global hne hlocal, Table.get?_insert_self]
    rfl

theorem get_set_of_ne (h : ¬SameName own name) : (v.set own value).get name = v.get name := by
  have hkey : variableKey name ≠ variableKey own := fun heq => h heq.symm
  have hscope := (sameDeclarations_set v own value).isLocal_eq name
  by_cases hne : Text.trim own = ""
  · rw [set_of_blank hne]
  · by_cases hname : v.isLocal name = true
    · rw [get_of_local (hscope.trans hname), get_of_local hname]
      by_cases hlocal : v.isLocal own = true
      · rw [set_of_local hne hlocal, Table.get?_insert_of_ne _ _ hkey]
      · rw [set_of_global hne hlocal]
    · have hname := eq_false_of_ne_true hname
      rw [get_of_not_local (hscope.trans hname), get_of_not_local hname]
      by_cases hlocal : v.isLocal own = true
      · rw [set_of_local hne hlocal]
      · rw [set_of_global hne hlocal, Table.get?_insert_of_ne _ _ hkey]

theorem setAll_append (v : Variables) (writes more : List (String × UInt8)) :
    v.setAll (writes ++ more) = (v.setAll writes).setAll more := by
  rw [setAll, setAll, setAll, List.foldl_append]

/-! ### Tokens -/

/-- One token writes the variable it names, if it is not reserved and its literal stands for a value, and no other. -/
theorem get_write (v : Variables) (t : Token) (name : String) :
    (∃ value, t.Writes name value ∧ (v.setAll t.write?.toList).get name = value) ∨
      (∀ value, ¬t.Writes name value) ∧ (v.setAll t.write?.toList).get name = v.get name := by
  cases hwrite : t.write? with
  | none =>
      refine .inr ⟨fun value hwrites => ?_, rfl⟩
      obtain ⟨own, hown, -⟩ := Token.writes_iff.1 hwrites
      cases hwrite.symm.trans hown
  | some write =>
      obtain ⟨own, value⟩ := write
      rw [Option.toList_some, setAll_cons, setAll_nil]
      by_cases hsame : Text.trim own ≠ "" ∧ SameName own name
      · exact .inl ⟨value, Token.writes_iff.2 ⟨own, hwrite, hsame⟩, get_set_same hsame.1 hsame.2⟩
      · refine .inr ⟨fun other hwrites => ?_, ?_⟩
        · obtain ⟨own', hown', hsame'⟩ := Token.writes_iff.1 hwrites
          cases hwrite.symm.trans hown'
          exact hsame hsame'
        · by_cases hne : Text.trim own = ""
          · rw [set_of_blank hne]
          · exact get_set_of_ne fun h => hsame ⟨hne, h⟩

theorem LastWrites.concat (h : LastWrites ts name value) (ht : ∀ other, ¬t.Writes name other) :
    LastWrites (ts ++ [t]) name value := by
  obtain ⟨before, u, after, rfl, hwrites, hafter⟩ := h
  refine ⟨before, u, after ++ [t], by simp, hwrites, fun w hw => ?_⟩
  rcases List.mem_append.1 hw with hw | hw
  · exact hafter w hw
  · rw [List.mem_singleton.1 hw]
    exact ht

/-- Every variable reads what the last token that writes it asks for, or as before if there is none. -/
theorem get_writes (v : Variables) (ts : List Token) (name : String) :
    (∃ value, LastWrites ts name value ∧ (v.setAll (ts.filterMap Token.write?)).get name = value) ∨
      (∀ t ∈ ts, ∀ value, ¬t.Writes name value) ∧ (v.setAll (ts.filterMap Token.write?)).get name = v.get name := by
  induction ts using List.reverseRecOn with
  | nil => exact .inr ⟨by simp, rfl⟩
  | append_singleton ts t ih =>
      have hlast : [t].filterMap Token.write? = t.write?.toList := by
        rw [List.filterMap_cons, List.filterMap_nil]
        cases t.write? <;> rfl
      rw [List.filterMap_append, hlast, setAll_append]
      rcases get_write (v.setAll (ts.filterMap Token.write?)) t name with ⟨value, hwrites, hget⟩ | ⟨hnot, hget⟩
      · exact .inl ⟨value, ⟨ts, t, [], rfl, hwrites, by simp⟩, hget⟩
      · rcases ih with ⟨value, hwrites, hvalue⟩ | ⟨hnone, hold⟩
        · exact .inl ⟨value, hwrites.concat hnot, hget.trans hvalue⟩
        · refine .inr ⟨fun u hu => ?_, hget.trans hold⟩
          rcases List.mem_append.1 hu with hu | hu
          · exact hnone u hu
          · rw [List.mem_singleton.1 hu]
            exact hnot

theorem writeCount_changedNames (text : String) :
    writeCount (changedNames text) = (Token.ofText text).countP (·.IsWriting) := by
  rw [writeCount, changedNames, List.countP_map, List.countP_filterMap]
  refine List.countP_congr fun t _ => ?_
  rw [decide_eq_true_iff, Token.isWriting_iff]
  cases t.write? with
  | none => exact Iff.rfl
  | some write => simp [variableKey_eq_empty_iff]

/-! ### Conditions -/

theorem apart_iff {u : Token} : Apart t u ↔
    ∀ own ∈ t.name?, ∀ other ∈ u.name?, Text.trim own ≠ "" → ¬SameName own other := by
  constructor
  · intro h own hown other hother hne hsame
    have hne' : Text.trim other ≠ "" := by
      intro hblank
      have hkey := (variableKey_eq_empty_iff other).2 hblank
      exact hne ((variableKey_eq_empty_iff own).1 (hsame.key_eq.trans hkey))
    exact h own ⟨own, hown, hne, rfl⟩ ⟨other, hother, hne', hsame.symm⟩
  · rintro h name ⟨own, hown, hne, hsame⟩ ⟨other, hother, -, hsame'⟩
    exact h own hown other hother hne (hsame.trans hsame'.symm)

instance : DecidableRel Apart :=
  fun _ _ => decidable_of_iff _ apart_iff.symm

/-- Among tokens that name different variables each one has the last word on its own. -/
theorem get_of_apart (hts : ts.Pairwise Apart) (ht : t ∈ ts) (hwrites : t.Writes name value) :
    (v.setAll (ts.filterMap Token.write?)).get name = value := by
  rcases get_writes v ts name with ⟨other, hlast, hget⟩ | ⟨hnone, -⟩
  · obtain ⟨before, u, after, rfl, hother, hafter⟩ := hlast
    obtain ⟨-, hrest, hapart⟩ := List.pairwise_append.1 hts
    rcases List.mem_append.1 ht with hbefore | hafter'
    · exact absurd hother.1 (hapart t hbefore u List.mem_cons_self name hwrites.1)
    · rcases List.mem_cons.1 hafter' with rfl | hafter'
      · rw [hget, hother.2.unique hwrites.2]
      · exact absurd hwrites (hafter t hafter' value)
  · exact absurd hwrites (hnone t ht value)

theorem holds_of_asks {values : String → UInt8} {own : String} (hname : own ∈ t.name?) (hasks : t.Asks value)
    (hvalue : values own = value) : t.holds values = true := by
  cases hasks with
  | nonzero => cases hname; rw [Token.holds, hvalue]; decide
  | isZero => cases hname; rw [Token.holds, hvalue]; decide
  | equals own' hliteral =>
      cases hname
      simp [Token.holds, literal?_eq_some_iff.2 hliteral, hvalue]

/-- After a change every variable reads what the last word that writes it asked for, and the count of writes tells how
many words did write. If all that could write did, each another variable, then the change holds as a condition. -/
theorem change_confirmed (v : Variables) (text : String) :
    Token.Spells text (Token.ofText text) ∧
      (∀ name,
        (∃ value, LastWrites (Token.ofText text) name value ∧ (v.change text).get name = value) ∨
          (∀ t ∈ Token.ofText text, ∀ value, ¬t.Writes name value) ∧ (v.change text).get name = v.get name) ∧
      (v.change text).lastChanged = v.lastChanged + .ofNat ((Token.ofText text).countP (·.IsWriting)) ∧
      ((∀ t ∈ Token.ofText text, t = .reserved ∨ t.IsWriting) → (Token.ofText text).Pairwise Apart →
        (v.change text).meets text = true) := by
  refine ⟨Token.spells_ofText text, fun name => v.get_writes _ name, ?_, fun hsound hapart => ?_⟩
  · rw [← writeCount_changedNames]
    exact (v.writes_change text).lastChanged_eq
  · refine List.all_eq_true.2 fun t ht => ?_
    rcases hsound t ht with rfl | ⟨name, value, ⟨own, hown, hne, -⟩, hasks⟩
    · rfl
    · exact holds_of_asks hown hasks (get_of_apart hapart ht ⟨⟨own, hown, hne, rfl⟩, hasks⟩)

/-- A room with a lamp of its own, in which the door of the house stands open. -/
def evening : Variables :=
  ((empty.set "Door" 1).declareLocal "Lamp").set "coin" 4

def nightfall : String := " =lamp,+007 !DOOR *quiet  Owl =Coin,-0 "

theorem change_confirmed_nightfall :
    (∀ t ∈ Token.ofText nightfall, t = .reserved ∨ t.IsWriting) ∧ (Token.ofText nightfall).Pairwise Apart ∧
      (evening.change nightfall).lastChanged = evening.lastChanged + 4 ∧
      (evening.change nightfall).meets nightfall = true := by
  have hsound : ∀ t ∈ Token.ofText nightfall, t = .reserved ∨ t.IsWriting := by decide +kernel
  have hapart : (Token.ofText nightfall).Pairwise Apart := by decide +kernel
  have hcount : (Token.ofText nightfall).countP (·.IsWriting) = 4 := by decide +kernel
  obtain ⟨-, -, hwrites, hmeets⟩ := change_confirmed evening nightfall
  rw [hcount] at hwrites
  exact ⟨hsound, hapart, hwrites, hmeets hsound hapart⟩

end Adventure.Variables
