import Mathlib.Data.List.Forall2
import Adventure.Proofs.Variables
import Adventure.Proofs.Variables.Spelling
/-! The two scopes. While a name is local nothing reaches its global value, and nothing but writes to local names
reaches the values of the room. It does not matter how a name is spelt. -/
namespace Adventure.Variables

/-! ### Acts -/

/-- What is done with the variables while a room lasts. -/
inductive Act where
  | set (name : String) (value : UInt8)
  | change (text : String)
  | reroll (dice : Random.Stream)
  | declareLocal (name : String)
  | declareRandom (name : String) (max : UInt8)
  deriving DecidableEq, Repr

def act (v : Variables) : Act → Variables
  | .set name value => v.set name value
  | .change text => v.change text
  | .reroll dice => (v.reroll dice).1
  | .declareLocal name => v.declareLocal name
  | .declareRandom name max => v.declareRandom name max

def run (v : Variables) (acts : List Act) : Variables :=
  acts.foldl act v

/-- What is rolled for each of the variables that have a range. -/
def rolls : List RandomVariable → Random.Stream → List (String × UInt8)
  | [], _ => []
  | r :: rest, dice =>
    if r.max == 0 then rolls rest dice
    else
      let (value, dice) := Random.roll r.max dice
      (r.name, value) :: rolls rest dice

/-- The writes that an act asks for, from the first to the last. -/
def writesOf (v : Variables) : Act → List (String × UInt8)
  | .set name value => [(name, value)]
  | .change text => (Token.ofText text).filterMap Token.write?
  | .reroll dice => rolls v.randoms dice
  | .declareLocal _ => []
  | .declareRandom _ _ => []

variable {u v w : Variables} {a b : Act} {name other key : String} {writes : List (String × UInt8)} {acts : List Act}

theorem setAll_nil (v : Variables) : v.setAll [] = v := rfl

theorem setAll_cons (v : Variables) (name : String) (value : UInt8) (writes : List (String × UInt8)) :
    v.setAll ((name, value) :: writes) = (v.set name value).setAll writes := by
  rw [setAll, List.foldl_cons, setAll]

theorem rollAll_fst (rs : List RandomVariable) (v : Variables) (dice : Random.Stream) :
    (rollAll rs v dice).1 = v.setAll (rolls rs dice) := by
  induction rs generalizing v dice with
  | nil => rfl
  | cons r rs ih =>
      unfold rollAll rolls
      split
      · exact ih v dice
      · generalize Random.roll r.max dice = rolled
        obtain ⟨value, dice'⟩ := rolled
        rw [setAll_cons]
        exact ih (v.set r.name value) dice'

/-- An act makes its writes, unless it declares something. -/
theorem act_cases (v : Variables) (a : Act) : v.act a = v.setAll (v.writesOf a) ∨
    (∃ name, a = .declareLocal name) ∨ ∃ name max, a = .declareRandom name max := by
  cases a with
  | set name value => exact .inl (by rw [act, writesOf, setAll_cons, setAll_nil])
  | change text => exact .inl (by rw [act, writesOf, Variables.change])
  | reroll dice => exact .inl (by rw [act, writesOf, reroll, rollAll_fst])
  | declareLocal name => exact .inr (.inl ⟨name, rfl⟩)
  | declareRandom name max => exact .inr (.inr ⟨name, max, rfl⟩)

theorem SameDeclarations.isLocal_eq (h : v.SameDeclarations w) (name : String) : v.isLocal name = w.isLocal name := by
  rw [isLocal, isLocal, h.localNames]

theorem isLocal_iff : v.isLocal name = true ↔ v.localNames.get? (variableKey name) = some () := by
  rw [isLocal, Table.contains, Option.isSome_iff_exists]
  exact ⟨fun ⟨(), h⟩ => h, fun h => ⟨(), h⟩⟩

/-! ### Global values -/

/-- The global value is still that of before, and no write gets at it. -/
structure Shields (v w : Variables) (key : String) : Prop where
  globals : w.globals.get? key = v.globals.get? key
  hidden : key = "" ∨ w.localNames.get? key = some ()

theorem shields_declareLocal (v : Variables) (name : String) :
    v.Shields (v.declareLocal name) (variableKey name) := by
  unfold declareLocal
  dsimp only
  split
  · next hblank => exact ⟨rfl, .inl (String.isEmpty_iff.1 hblank)⟩
  · exact ⟨rfl, .inr (v.localNames.get?_insert_self _ ())⟩

theorem Shields.set (h : v.Shields w key) (name : String) (value : UInt8) : v.Shields (w.set name value) key := by
  unfold Variables.set
  dsimp only
  split
  · exact h
  · next hname =>
    split
    · exact ⟨h.globals, h.hidden⟩
    · next hlocal =>
      have hne : key ≠ variableKey name := by
        rintro rfl
        rcases h.hidden with hblank | hhidden
        · exact hname (String.isEmpty_iff.2 hblank)
        · exact hlocal (isLocal_iff.2 hhidden)
      exact ⟨(w.globals.get?_insert_of_ne value hne).trans h.globals, h.hidden⟩

theorem Shields.setAll (h : v.Shields w key) (writes : List (String × UInt8)) : v.Shields (w.setAll writes) key := by
  induction writes generalizing w with
  | nil => exact h
  | cons write writes ih =>
      rw [setAll_cons]
      exact ih (h.set write.1 write.2)

theorem Shields.declareLocal (h : v.Shields w key) (name : String) : v.Shields (w.declareLocal name) key := by
  unfold Variables.declareLocal
  dsimp only
  split
  · exact h
  · refine ⟨h.globals, h.hidden.imp_right fun hhidden => ?_⟩
    rw [Table.get?_insert, hhidden, ite_self]

theorem Shields.act (h : v.Shields w key) (a : Act) : v.Shields (w.act a) key := by
  rcases w.act_cases a with heq | ⟨name, rfl⟩ | ⟨name, max, rfl⟩
  · rw [heq]
    exact h.setAll _
  · exact h.declareLocal name
  · exact ⟨h.globals, h.hidden⟩

theorem Shields.run (h : v.Shields w key) (acts : List Act) : v.Shields (w.run acts) key := by
  induction acts generalizing w with
  | nil => exact h
  | cons a acts ih => exact ih (h.act a)

/-- When the room is left the names read their global values. -/
theorem get_clearLocals (v : Variables) (name : String) :
    v.clearLocals.get name = (v.globals.get? (variableKey name)).getD 0 := rfl

theorem get_of_not_local (h : v.isLocal name = false) : v.get name = (v.globals.get? (variableKey name)).getD 0 := by
  rw [get, h]
  rfl

/-! ### Values of the room -/

theorem locals_set (h : variableKey name = key → v.isLocal name = false) (value : UInt8) :
    (v.set name value).locals.get? key = v.locals.get? key := by
  unfold set
  dsimp only
  split
  · rfl
  · split
    · next hlocal =>
      have hne : key ≠ variableKey name := by
        intro hkey
        rw [h hkey.symm] at hlocal
        cases hlocal
      exact v.locals.get?_insert_of_ne value hne
    · rfl

theorem locals_setAll (h : ∀ write ∈ writes, variableKey write.1 = key → v.isLocal write.1 = false) :
    (v.setAll writes).locals.get? key = v.locals.get? key := by
  induction writes generalizing v with
  | nil => rfl
  | cons write writes ih =>
      obtain ⟨hfirst, hrest⟩ := List.forall_mem_cons.1 h
      have hsame := v.sameDeclarations_set write.1 write.2
      rw [setAll_cons]
      refine (ih fun write' hmem hkey => ?_).trans (locals_set hfirst write.2)
      rw [hsame.isLocal_eq]
      exact hrest write' hmem hkey

theorem locals_act (h : ∀ write ∈ v.writesOf a, variableKey write.1 = key → v.isLocal write.1 = false) :
    (v.act a).locals.get? key = v.locals.get? key := by
  rcases v.act_cases a with heq | ⟨name, rfl⟩ | ⟨name, max, rfl⟩
  · rw [heq]
    exact locals_setAll h
  · rw [act, declareLocal]
    split <;> rfl
  · rfl

theorem locals_eq_of_writesOf (h : ∀ write ∈ v.writesOf a, v.isLocal write.1 = false) :
    (v.act a).locals = v.locals :=
  Table.ext fun _ => locals_act fun write hmem _ => h write hmem

/-! ### Spellings -/

/-- The acts are the same but for the spelling of names. -/
inductive Act.Alike : Act → Act → Prop where
  | set {name other : String} (h : SameName name other) (value : UInt8) : Alike (.set name value) (.set other value)
  | change {text other : String} (h : SameWords text other) : Alike (.change text) (.change other)
  | reroll (dice : Random.Stream) : Alike (.reroll dice) (.reroll dice)
  | declareLocal {name other : String} (h : SameName name other) : Alike (.declareLocal name) (.declareLocal other)
  | declareRandom {name other : String} (h : SameName name other) (max : UInt8) :
      Alike (.declareRandom name max) (.declareRandom other max)

theorem isLocal_same (h : SameName name other) (v : Variables) : v.isLocal name = v.isLocal other := by
  rw [isLocal, h.key_eq, isLocal]

theorem get_same (h : SameName name other) (v : Variables) : v.get name = v.get other := by
  rw [get, isLocal_same h, h.key_eq, get]

theorem set_same (h : SameName name other) (v : Variables) (value : UInt8) : v.set name value = v.set other value := by
  rw [set, isLocal_same h, h.key_eq, set]

theorem sameName_upper (name : String) : SameName (Text.upper name) name :=
  variableKey_upper name

theorem setAll_upper (v : Variables) (writes : List (String × UInt8)) :
    v.setAll (writes.map fun (name, value) => (Text.upper name, value)) = v.setAll writes := by
  induction writes generalizing v with
  | nil => rfl
  | cons write writes ih =>
      obtain ⟨name, value⟩ := write
      rw [List.map_cons, setAll_cons, setAll_cons, ih, set_same (sameName_upper name)]

theorem change_eq (v : Variables) (text : String) :
    v.change text = v.setAll (((Token.ofText text).map Token.upper).filterMap Token.write?) := by
  rw [List.filterMap_map, show Token.write? ∘ Token.upper = _ from funext Token.write?_upper, ← List.map_filterMap,
    setAll_upper, change]

theorem change_same {text other : String} (h : SameWords text other) (v : Variables) :
    v.change text = v.change other := by
  rw [change_eq, Token.ofText_same h, ← change_eq]

theorem meets_eq (v : Variables) (text : String) :
    v.meets text = ((Token.ofText text).map Token.upper).all (Token.holds v.get) := by
  have hget : ∀ name, v.get (Text.upper name) = v.get name := fun name => get_same (sameName_upper name) v
  rw [List.all_map, meets]
  congr 1
  exact funext fun t => (Token.holds_upper hget t).symm

theorem meets_same {text other : String} (h : SameWords text other) (v : Variables) :
    v.meets text = v.meets other := by
  rw [meets_eq, Token.ofText_same h, ← meets_eq]

theorem meetsAny_same {texts others : List String} (h : List.Forall₂ SameWords texts others) (v : Variables) :
    v.meetsAny texts = v.meetsAny others := by
  have hempty : texts.isEmpty = others.isEmpty := by cases h <;> rfl
  have hany : texts.any v.meets = others.any v.meets := by
    clear hempty
    induction h with
    | nil => rfl
    | cons hfirst _ ih => rw [List.any_cons, List.any_cons, ih, meets_same hfirst]
  rw [meetsAny, meetsAny, hempty, hany]

theorem act_alike (h : a.Alike b) (v : Variables) : v.act a = v.act b := by
  cases h with
  | set h value => exact set_same h v value
  | change h => exact change_same h v
  | reroll dice => rfl
  | declareLocal h => rw [act, act, Variables.declareLocal, h.key_eq, Variables.declareLocal]
  | declareRandom h max => rw [act, act, Variables.declareRandom, h.key_eq, Variables.declareRandom]

theorem run_alike {others : List Act} (h : List.Forall₂ Act.Alike acts others) (v : Variables) :
    v.run acts = v.run others := by
  induction h generalizing v with
  | nil => rfl
  | cons hfirst _ ih =>
      rw [run, run, List.foldl_cons, List.foldl_cons, act_alike hfirst]
      exact ih _

/-- A name that is declared local gets back its global value when the room is left, whatever was done meanwhile. The
values of the room are those written to local names, and spellings of a name cannot be told apart. -/
theorem scopes_apart (v : Variables) :
    (∀ name acts, v.isLocal name = false →
        ((v.declareLocal name).run acts).globals.get? (variableKey name) = v.globals.get? (variableKey name) ∧
        ((v.declareLocal name).run acts).clearLocals.get name = v.get name) ∧
      (∀ a, (∀ write ∈ v.writesOf a, v.isLocal write.1 = false) → (v.act a).locals = v.locals) ∧
      (∀ a key, (∀ write ∈ v.writesOf a, variableKey write.1 = key → v.isLocal write.1 = false) →
        (v.act a).locals.get? key = v.locals.get? key) ∧
      (∀ name other, SameName name other → v.get name = v.get other ∧ v.isLocal name = v.isLocal other) ∧
      (∀ texts others, List.Forall₂ SameWords texts others → v.meetsAny texts = v.meetsAny others) ∧
      ∀ acts others, List.Forall₂ Act.Alike acts others → v.run acts = v.run others := by
  refine ⟨fun name acts hlocal => ?_, fun a h => locals_eq_of_writesOf h, fun a key h => locals_act h,
    fun name other h => ⟨get_same h v, isLocal_same h v⟩, fun texts others h => meetsAny_same h v,
    fun acts others h => run_alike h v⟩
  have hshields := (v.shields_declareLocal name).run acts
  refine ⟨hshields.globals, ?_⟩
  rw [get_clearLocals, hshields.globals, get_of_not_local hlocal]

/-- A lamp is lit in the whole game and a coin was found. -/
def litLamp : Variables :=
  (empty.set "lamp" 3).set "Coin" 1

/-- What a room with a lamp of its own does. -/
def roomActs : List Act :=
  [.set "lamp" 9, .change "!LaMp =Coin,7", .declareRandom " Lamp " 6, .reroll (Random.Stream.ofSeed 7),
    .declareLocal "Coin", .set "coin" 5]

def shoutedActs : List Act :=
  [.set " LAMP" 9, .change "!lamp =COIN,7", .declareRandom "LAMP" 6, .reroll (Random.Stream.ofSeed 7),
    .declareLocal "COIN", .set "COIN " 5]

theorem alike_roomActs : List.Forall₂ Act.Alike roomActs shoutedActs :=
  .cons (.set (by decide +kernel) 9) <| .cons (.change (by decide +kernel)) <|
    .cons (.declareRandom (by decide +kernel) 6) <| .cons (.reroll _) <|
    .cons (.declareLocal (by decide +kernel)) <| .cons (.set (by decide +kernel) 5) .nil

theorem scopes_apart_lamp :
    litLamp.isLocal "Lamp" = false ∧ litLamp.get "Lamp" = 3 ∧
      ((litLamp.declareLocal "Lamp").run roomActs).globals.get? "LAMP" = some 3 ∧
      ((litLamp.declareLocal "Lamp").run roomActs).clearLocals.get "Lamp" = 3 ∧
      ((litLamp.declareLocal "Lamp").act (.change "coin=4 *other")).locals = ∅ ∧
      SameName " lAMP" "Lamp" ∧ litLamp.get " lAMP" = litLamp.get "Lamp" ∧
      litLamp.meetsAny ["=lamp,3 coin"] = litLamp.meetsAny [" =LAMP,3  Coin"] ∧
      litLamp.run roomActs = litLamp.run shoutedActs := by
  have hlocal : litLamp.isLocal "Lamp" = false := by decide +kernel
  have hget : litLamp.get "Lamp" = 3 := by decide +kernel
  have hsame : SameName " lAMP" "Lamp" := by decide +kernel
  obtain ⟨hglobal, -, -, hnames, hmeets, hruns⟩ := scopes_apart litLamp
  obtain ⟨hlamp, hleft⟩ := hglobal "Lamp" roomActs hlocal
  have htable := (scopes_apart (litLamp.declareLocal "Lamp")).2.1 (.change "coin=4 *other") (by decide +kernel)
  exact ⟨hlocal, hget, hlamp.trans (by decide +kernel), hleft.trans hget, htable.trans (by decide +kernel), hsame,
    (hnames _ _ hsame).1, hmeets _ _ (.cons (by decide +kernel) .nil), hruns _ _ alike_roomActs⟩

end Adventure.Variables
