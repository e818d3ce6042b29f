import Adventure.Proofs.Room.Install
import Adventure.Proofs.Text.Blank
/-! The names that a room declares, and what rolling its random variables may touch. A room rolls for none but
its own names, so no roll reaches a global variable. -/
namespace Adventure

/-! ### Keys -/

/-- A key is its own key. -/
theorem variableKey_variableKey (name : String) : variableKey (variableKey name) = variableKey name := by
  have hupper : Char.toUpper ∘ Char.toUpper = Char.toUpper := funext Text.toUpper_toUpper
  simp only [variableKey, Text.upper, Text.trim, String.toList_ofList, Chars.trim_map_toUpper, Chars.trim_trim,
    List.map_map, hupper]

/-! ### Declared names -/

theorem get?_addName_iff {names : NameSet} {name key : String} : (addName names name).get? key = some () ↔
    names.get? key = some () ∨ key ≠ "" ∧ variableKey name = key := by
  unfold addName
  split
  · next hblank =>
    rw [String.isEmpty_iff] at hblank
    refine ⟨.inl, fun h => h.resolve_right ?_⟩
    rintro ⟨hne, rfl⟩
    exact hne hblank
  · next hne =>
    rw [String.isEmpty_iff] at hne
    rw [Table.get?_insert]
    by_cases hkey : key = variableKey name
    · subst hkey
      simp [hne]
    · simp [hkey, Ne.symm hkey]

theorem get?_foldl_addName_iff {names : NameSet} {added : List String} {key : String} :
    (added.foldl addName names).get? key = some () ↔
      names.get? key = some () ∨ key ≠ "" ∧ ∃ name ∈ added, variableKey name = key := by
  induction added generalizing names with
  | nil => simp
  | cons name added ih =>
      rw [List.foldl_cons, ih, get?_addName_iff, List.exists_mem_cons_iff, and_or_left, or_assoc]

theorem RandomVariable.mem_names_declareAll_iff {ds : List (String × UInt8)} {rs : List RandomVariable}
    {name : String} : name ∈ (declareAll ds rs).map RandomVariable.name ↔
      name ∈ rs.map RandomVariable.name ∨ name ∈ ds.map Prod.fst := by
  refine ⟨fun h => ?_, mem_names_declareAll ds rs⟩
  induction ds generalizing rs with
  | nil => exact .inl h
  | cons d ds ih =>
      rw [List.map_cons, List.mem_cons]
      rcases ih h with h | h
      · rw [names_declare] at h
        split at h
        · exact .inl h
        · rcases List.mem_append.1 h with h | h
          · exact .inl h
          · exact .inr (.inl (List.mem_singleton.1 h))
      · exact .inr (.inr h)

/-! ### Rolling -/

namespace Variables
variable {u v w : Variables}

/-- Every random variable is kept under its own name, and the name is local or blank. -/
def Confined (v : Variables) : Prop :=
  ∀ name ∈ v.randoms.map RandomVariable.name, variableKey name = name ∧
    (name.isEmpty ∨ v.localNames.get? name = some ())

/-- Nothing but values of the random variables has changed, and those are local. -/
structure Rolled (v w : Variables) : Prop where
  globals : w.globals = v.globals
  declared : w.SameDeclarations v
  locals : ∀ key, w.locals.get? key = v.locals.get? key ∨ key ≠ "" ∧ key ∈ v.randoms.map RandomVariable.name

theorem Rolled.refl (v : Variables) : v.Rolled v :=
  ⟨rfl, .refl v, fun _ => .inl rfl⟩

theorem Rolled.trans (h : u.Rolled v) (h' : v.Rolled w) : u.Rolled w where
  globals := h'.globals.trans h.globals
  declared := h'.declared.trans h.declared
  locals key := by
    have hlater := h'.locals key
    rw [h.declared.randoms] at hlater
    rcases hlater with heq | hrandom
    · rw [heq]
      exact h.locals key
    · exact .inr hrandom

theorem Confined.congr (h : v.Confined) (hw : w.SameDeclarations v) : w.Confined := by
  rw [Confined, hw.localNames, hw.randoms]
  exact h

theorem Confined.rolled_set (h : v.Confined) {name : String} (hname : name ∈ v.randoms.map RandomVariable.name)
    (value : UInt8) : v.Rolled (v.set name value) := by
  obtain ⟨hkey, hlocal⟩ := h name hname
  unfold set isLocal
  rw [hkey]
  dsimp only
  split
  · exact .refl v
  · next hblank =>
    have hcontains : v.localNames.contains name = true := by
      rw [Table.contains, hlocal.resolve_left hblank]
      rfl
    rw [if_pos hcontains]
    refine ⟨rfl, ⟨rfl, rfl⟩, fun key => ?_⟩
    by_cases hk : key = name
    · subst hk
      exact .inr ⟨by simpa using hblank, hname⟩
    · exact .inl (v.locals.get?_insert_of_ne value hk)

theorem Confined.rolled_rollAll (h : v.Confined) {rs : List RandomVariable} (hrs : rs ⊆ v.randoms)
    (s : Random.Stream) : v.Rolled (rollAll rs v s).1 := by
  induction rs generalizing v s with
  | nil => exact .refl v
  | cons r rs ih =>
      obtain ⟨hr, hrs⟩ := List.cons_subset.1 hrs
      unfold rollAll
      split
      · exact ih h hrs s
      · generalize Random.roll r.max s = rolled
        obtain ⟨value, s'⟩ := rolled
        have hset := h.rolled_set (List.mem_map_of_mem hr) value
        refine hset.trans (ih (h.congr hset.declared) ?_ s')
        rw [hset.declared.randoms]
        exact hrs

theorem Confined.rolled_reroll (h : v.Confined) (s : Random.Stream) : v.Rolled (v.reroll s).1 :=
  h.rolled_rollAll (List.Subset.refl _) s

end Variables

/-! ### Rooms -/

namespace Room
variable {room : Room} {v : Variables} {key : String}

theorem localName_declareVariables_iff (h : v.localNames = ∅) :
    (room.declareVariables v).localNames.get? key = some () ↔
      key ≠ "" ∧ ∃ name ∈ room.locals ++ room.randoms.map Prod.fst, variableKey name = key := by
  rw [declareVariables_eq]
  dsimp only
  rw [h, get?_foldl_addName_iff, Table.get?_empty]
  simp

theorem random_declareVariables_iff (h : v.randoms = []) :
    key ∈ (room.declareVariables v).randoms.map RandomVariable.name ↔
      ∃ name ∈ room.randoms.map Prod.fst, variableKey name = key := by
  rw [declareVariables_eq]
  dsimp only
  rw [h, RandomVariable.mem_names_declareAll_iff]
  simp [List.map_map]

theorem confined_declareVariables (h : v.SameDeclarations .empty) : (room.declareVariables v).Confined := by
  intro key hkey
  obtain ⟨name, hname, rfl⟩ := (random_declareVariables_iff h.randoms).1 hkey
  refine ⟨variableKey_variableKey name, ?_⟩
  rw [localName_declareVariables_iff h.localNames, String.isEmpty_iff]
  exact Decidable.or_iff_not_imp_left.2 fun hne => ⟨hne, name, List.mem_append_right _ hname, rfl⟩

end Room
end Adventure
