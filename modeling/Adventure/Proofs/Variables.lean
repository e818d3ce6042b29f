import Mathlib.Data.List.Nodup
import Adventure.Variables.Basic
import Adventure.Proofs.Table
/-! Variables: what is declared is not touched by writes, snapshots bring everything back but the count of
writes, and the count tells whether there were writes. -/
namespace Adventure

namespace RandomVariable

/-! ### Declaring random variables -/

/-- The range of the first variable of the name. -/
def range? (name : String) (rs : List RandomVariable) : Option UInt8 :=
  (rs.find? (·.name == name)).map RandomVariable.max

theorem names_declare (key : String) (max : UInt8) (rs : List RandomVariable) :
    (declare key max rs).map RandomVariable.name =
      if key ∈ rs.map RandomVariable.name then rs.map RandomVariable.name
      else rs.map RandomVariable.name ++ [key] := by
  induction rs with
  | nil => rfl
  | cons r rs ih =>
      by_cases h : r.name = key
      · simp [declare, h]
      · have hne : key ≠ r.name := Ne.symm h
        by_cases hmem : key ∈ rs.map RandomVariable.name
        · rw [if_pos hmem] at ih
          simp [declare, h, ih, hmem]
        · rw [if_neg hmem] at ih
          simp [declare, h, ih, hne, hmem]

theorem range?_cons (r : RandomVariable) (rs : List RandomVariable) (name : String) :
    range? name (r :: rs) = if name = r.name then some r.max else range? name rs := by
  by_cases h : name = r.name
  · simp [range?, h]
  · have hname : (r.name == name) = false := by simpa using Ne.symm h
    simp [range?, hname, h]

theorem range?_eq_none {name : String} {rs : List RandomVariable}
    (h : name ∉ rs.map RandomVariable.name) : range? name rs = none := by
  induction rs with
  | nil => rfl
  | cons r rs ih =>
      rw [List.map_cons, List.mem_cons, not_or] at h
      rw [range?_cons, if_neg h.1, ih h.2]

theorem range?_declare (key : String) (max : UInt8) (rs : List RandomVariable) (name : String) :
    range? name (declare key max rs) = if name = key then some max else range? name rs := by
  induction rs with
  | nil => exact range?_cons ⟨key, max⟩ [] name
  | cons r rs ih =>
      by_cases hr : r.name = key
      · simp only [declare, hr, beq_self_eq_true, if_true, range?_cons]
        by_cases hname : name = key <;> simp [hname]
      · have hr' : (r.name == key) = false := by simpa using hr
        simp only [declare, hr', Bool.false_eq_true, if_false, range?_cons, ih]
        by_cases hname : name = r.name
        · have hne : name ≠ key := fun h => hr (hname.symm.trans h)
          simp [hname, hr]
        · simp [hname]

theorem eq_of_range? {rs rs' : List RandomVariable}
    (hnames : rs.map RandomVariable.name = rs'.map RandomVariable.name)
    (hnodup : (rs.map RandomVariable.name).Nodup) (h : ∀ name, range? name rs = range? name rs') :
    rs = rs' := by
  induction rs generalizing rs' with
  | nil =>
      rw [List.map_nil, eq_comm, List.map_eq_nil_iff] at hnames
      exact hnames.symm
  | cons r rs ih =>
      cases rs' with
      | nil => cases hnames
      | cons r' rs' =>
          rw [List.map_cons, List.map_cons, List.cons.injEq] at hnames
          obtain ⟨hhead, htail⟩ := hnames
          obtain ⟨hnot, hnodup⟩ := List.nodup_cons.1 hnodup
          have hmax := h r.name
          rw [range?_cons, range?_cons, if_pos rfl, if_pos hhead, Option.some.injEq] at hmax
          have hrs : rs = rs' := by
            refine ih htail hnodup fun name => ?_
            by_cases hname : name = r.name
            · rw [hname, range?_eq_none hnot, range?_eq_none (htail ▸ hnot)]
            · have hrest := h name
              rwa [range?_cons, range?_cons, if_neg hname, if_neg (hhead ▸ hname)] at hrest
          cases r
          cases r'
          simp_all

/-- Declares the variables of a list, one after the other. -/
def declareAll (ds : List (String × UInt8)) (rs : List RandomVariable) : List RandomVariable :=
  ds.foldl (fun rs (key, max) => declare key max rs) rs

theorem declareAll_cons (key : String) (max : UInt8) (ds : List (String × UInt8))
    (rs : List RandomVariable) : declareAll ((key, max) :: ds) rs = declareAll ds (declare key max rs) := rfl

theorem nodup_names_declareAll (ds : List (String × UInt8)) {rs : List RandomVariable}
    (h : (rs.map RandomVariable.name).Nodup) : ((declareAll ds rs).map RandomVariable.name).Nodup := by
  induction ds generalizing rs with
  | nil => exact h
  | cons d ds ih =>
      refine ih ?_
      rw [names_declare]
      split
      · exact h
      · next hnot =>
        refine List.nodup_append.2 ⟨h, List.nodup_singleton _, fun a ha b hb hab => ?_⟩
        exact hnot (List.mem_singleton.1 hb ▸ hab ▸ ha)

theorem mem_names_declareAll (ds : List (String × UInt8)) (rs : List RandomVariable) {name : String}
    (h : name ∈ rs.map RandomVariable.name ∨ name ∈ ds.map Prod.fst) :
    name ∈ (declareAll ds rs).map RandomVariable.name := by
  induction ds generalizing rs with
  | nil => simpa [declareAll] using h
  | cons d ds ih =>
      refine ih (declare d.1 d.2 rs) ?_
      rw [names_declare]
      rw [List.map_cons, List.mem_cons] at h
      split
      · next hmem =>
        rcases h with h | rfl | h
        · exact .inl h
        · exact .inl hmem
        · exact .inr h
      · rcases h with h | rfl | h
        · exact .inl (List.mem_append_left _ h)
        · exact .inl (List.mem_append_right _ (List.mem_singleton_self _))
        · exact .inr h

theorem names_declareAll_of_mem {ds : List (String × UInt8)} {rs : List RandomVariable}
    (h : ∀ d ∈ ds, d.1 ∈ rs.map RandomVariable.name) :
    (declareAll ds rs).map RandomVariable.name = rs.map RandomVariable.name := by
  induction ds generalizing rs with
  | nil => rfl
  | cons d ds ih =>
      have hnames : (declare d.1 d.2 rs).map RandomVariable.name = rs.map RandomVariable.name := by
        rw [names_declare, if_pos (h d List.mem_cons_self)]
      refine (ih fun e he => ?_).trans hnames
      rw [hnames]
      exact h e (List.mem_cons_of_mem d he)

/-- The last range given to a variable counts. -/
theorem range?_declareAll (ds : List (String × UInt8)) (rs : List RandomVariable) (name : String) :
    range? name (declareAll ds rs) = (ds.reverse.lookup name).or (range? name rs) := by
  induction ds generalizing rs with
  | nil => rfl
  | cons d ds ih =>
      obtain ⟨key, max⟩ := d
      rw [declareAll_cons, ih, range?_declare, List.reverse_cons, List.lookup_append]
      by_cases hname : name = key
      · simp [hname]
      · have hkey : (name == key) = false := by simpa using hname
        simp [hname, hkey, List.lookup_cons]

/-- Declaring the same variables again changes nothing. -/
theorem declareAll_declareAll (ds : List (String × UInt8)) :
    declareAll ds (declareAll ds []) = declareAll ds [] := by
  have hnodup : ((declareAll ds []).map RandomVariable.name).Nodup :=
    nodup_names_declareAll ds List.nodup_nil
  have hnames : (declareAll ds (declareAll ds [])).map RandomVariable.name =
      (declareAll ds []).map RandomVariable.name :=
    names_declareAll_of_mem fun d hd => mem_names_declareAll ds [] (.inr (List.mem_map_of_mem hd))
  refine eq_of_range? hnames (hnames ▸ hnodup) fun name => ?_
  rw [range?_declareAll, range?_declareAll]
  cases ds.reverse.lookup name <;> rfl

end RandomVariable

namespace Variables

/-! ### Snapshots -/

/-- Everything comes back from a snapshot, and the count of writes moves on. -/
theorem ofSnapshot_snapshot (v : Variables) :
    ofSnapshot v.snapshot = { v with lastChanged := v.lastChanged + 1 } := by
  simp only [ofSnapshot, snapshot, Table.ofList_toList, NameSet.ofList_keys]

/-! ### What is declared -/

/-- The same names are local and the same variables random. -/
structure SameDeclarations (v w : Variables) : Prop where
  localNames : v.localNames = w.localNames
  randoms : v.randoms = w.randoms

theorem SameDeclarations.refl (v : Variables) : v.SameDeclarations v :=
  ⟨rfl, rfl⟩

theorem SameDeclarations.trans {u v w : Variables} (h : u.SameDeclarations v) (h' : v.SameDeclarations w) :
    u.SameDeclarations w :=
  ⟨h.localNames.trans h'.localNames, h.randoms.trans h'.randoms⟩

theorem sameDeclarations_set (v : Variables) (name : String) (value : UInt8) :
    (v.set name value).SameDeclarations v := by
  unfold set
  dsimp only
  split
  · exact .refl v
  · split <;> exact ⟨rfl, rfl⟩

theorem sameDeclarations_setAll (v : Variables) (writes : List (String × UInt8)) :
    (v.setAll writes).SameDeclarations v := by
  induction writes generalizing v with
  | nil => exact .refl v
  | cons write writes ih =>
      obtain ⟨name, value⟩ := write
      rw [setAll, List.foldl_cons]
      exact (ih (v.set name value)).trans (sameDeclarations_set v name value)

theorem sameDeclarations_change (v : Variables) (text : String) : (v.change text).SameDeclarations v :=
  sameDeclarations_setAll v _

theorem sameDeclarations_rollAll (rs : List RandomVariable) (v : Variables) (s : Random.Stream) :
    (rollAll rs v s).1.SameDeclarations v := by
  induction rs generalizing v s with
  | nil => exact .refl v
  | cons r rs ih =>
      unfold rollAll
      split
      · exact ih v s
      · generalize Random.roll r.max s = rolled
        obtain ⟨value, s'⟩ := rolled
        exact (ih (v.set r.name value) s').trans (sameDeclarations_set v r.name value)

theorem sameDeclarations_reroll (v : Variables) (s : Random.Stream) :
    (v.reroll s).1.SameDeclarations v :=
  sameDeclarations_rollAll v.randoms v s

/-! ### The count of writes -/

/-- What a number of writes makes of the variables. -/
inductive Writes (v : Variables) : Nat → Variables → Prop where
  | none : Writes v 0 v
  | set {n : Nat} {w : Variables} {name : String} (h : Writes v n w) (hname : (variableKey name).isEmpty = false)
      (value : UInt8) : Writes v (n + 1) (w.set name value)
  | clearLocals {n : Nat} {w : Variables} (h : Writes v n w) : Writes v (n + 1) w.clearLocals

/-- How many of the names are written to. One that is nothing but blanks is not. -/
def writeCount (names : List String) : Nat :=
  names.countP fun name => !(variableKey name).isEmpty

/-- The names that a change writes to. -/
def changedNames (text : String) : List String :=
  ((Token.ofText text).filterMap Token.write?).map Prod.fst

/-- The names that are rolled for. -/
def rolledNames (rs : List RandomVariable) : List String :=
  (rs.filter (·.max != 0)).map RandomVariable.name

section Writes
variable {u v w : Variables} {n m : Nat}

theorem writeCount_append (names names' : List String) :
    writeCount (names ++ names') = writeCount names + writeCount names' :=
  List.countP_append

theorem lastChanged_set {name : String} (hname : (variableKey name).isEmpty = false) (v : Variables)
    (value : UInt8) : (v.set name value).lastChanged = v.lastChanged + 1 := by
  simp only [set, hname, Bool.false_eq_true, if_false]
  split <;> rfl

theorem Writes.lastChanged_eq (h : v.Writes n w) : w.lastChanged = v.lastChanged + .ofNat n := by
  induction h with
  | none => exact (UInt32.add_zero _).symm
  | set _ hname value ih => rw [lastChanged_set hname, ih, UInt32.ofNat_add, UInt32.add_assoc]; rfl
  | clearLocals _ ih => rw [Variables.clearLocals, ih, UInt32.ofNat_add, UInt32.add_assoc]; rfl

theorem Writes.eq_of_zero (h : v.Writes 0 w) : w = v := by
  cases h
  rfl

/-- Fewer writes than the count has values leave it as it was only if there were none. -/
theorem Writes.eq_zero_of_lastChanged (h : v.Writes n w) (hn : n < UInt32.size)
    (hsame : w.lastChanged = v.lastChanged) : n = 0 := by
  rw [h.lastChanged_eq] at hsame
  have hzero : UInt32.ofNat n = 0 := by simpa using hsame
  have hnat := congrArg UInt32.toNat hzero
  rwa [UInt32.toNat_ofNat_of_lt' hn] at hnat

theorem Writes.trans (h : u.Writes n v) (h' : v.Writes m w) : u.Writes (n + m) w := by
  induction h' with
  | none => exact h
  | set _ hname value ih => exact ih.set hname value
  | clearLocals _ ih => exact ih.clearLocals

theorem writes_set (v : Variables) (name : String) (value : UInt8) :
    v.Writes (writeCount [name]) (v.set name value) := by
  cases hname : (variableKey name).isEmpty with
  | true => simpa [writeCount, hname, set] using Writes.none
  | false => simpa [writeCount, hname] using Writes.none.set hname value

theorem writes_setAll (v : Variables) (writes : List (String × UInt8)) :
    v.Writes (writeCount (writes.map Prod.fst)) (v.setAll writes) := by
  induction writes generalizing v with
  | nil => exact .none
  | cons write writes ih =>
      obtain ⟨name, value⟩ := write
      rw [List.map_cons, ← List.singleton_append, writeCount_append, setAll, List.foldl_cons]
      exact (v.writes_set name value).trans (ih (v.set name value))

theorem writes_change (v : Variables) (text : String) :
    v.Writes (writeCount (changedNames text)) (v.change text) :=
  v.writes_setAll _

theorem writes_rollAll (rs : List RandomVariable) (v : Variables) (s : Random.Stream) :
    v.Writes (writeCount (rolledNames rs)) (rollAll rs v s).1 := by
  induction rs generalizing v s with
  | nil => exact .none
  | cons r rs ih =>
      unfold rollAll rolledNames
      split
      · next hmax =>
        rw [List.filter_cons_of_neg (by simpa using hmax)]
        exact ih v s
      · next hmax =>
        rw [List.filter_cons_of_pos (by simpa using hmax), List.map_cons, ← List.singleton_append,
          writeCount_append]
        generalize Random.roll r.max s = rolled
        obtain ⟨value, s'⟩ := rolled
        exact (v.writes_set r.name value).trans (ih (v.set r.name value) s')

theorem writes_reroll (v : Variables) (s : Random.Stream) :
    v.Writes (writeCount (rolledNames v.randoms)) (v.reroll s).1 :=
  writes_rollAll v.randoms v s

end Writes
end Variables
end Adventure
