import Mathlib.Data.List.Nodup
import Mathlib.Data.List.Sort
import Adventure.Table
/-! Tables as partial functions: what each operation does to the look-ups, and that the look-ups
determine the table. -/
namespace Adventure

/-- Two ascending lists of entries are equal if they hold the same entries. -/
theorem eq_of_ascending {α : Type} {as bs : List (String × α)}
    (ha : as.Pairwise fun a b => a.1 < b.1) (hb : bs.Pairwise fun a b => a.1 < b.1)
    (h : ∀ e, e ∈ as ↔ e ∈ bs) : as = bs := by
  have hasymm : Std.Antisymm fun a b : String × α => a.1 < b.1 :=
    ⟨fun _ _ hab hba => absurd hba (String.lt_asymm hab)⟩
  have hirrefl : Std.Irrefl fun a b : String × α => a.1 < b.1 := ⟨fun _ => String.lt_irrefl _⟩
  exact ha.eq_of_mem_iff hb h

namespace Table
variable {α : Type}

/-! ### Look-ups after each operation -/

@[simp] theorem get?_empty (key : String) : (∅ : Table α).get? key = none := rfl

theorem lookup_entry_cons (k key : String) (value : α) (es : List (String × α)) :
    ((key, value) :: es).lookup k = if k = key then some value else es.lookup k := by
  rw [List.lookup_cons]
  by_cases hk : k = key
  · simp [hk]
  · rw [beq_eq_false_iff_ne.2 hk, if_neg hk]

theorem lookup_insertEntry (key : String) (value : α) (es : List (String × α)) (k : String) :
    (insertEntry key value es).lookup k = if k = key then some value else es.lookup k := by
  induction es with
  | nil => exact lookup_entry_cons k key value []
  | cons e es ih =>
      obtain ⟨name, v⟩ := e
      simp only [insertEntry]
      split
      · exact lookup_entry_cons k key value _
      · split
        · next heq =>
          subst heq
          simp only [lookup_entry_cons]
          by_cases hk : k = key <;> simp [hk]
        · next hne =>
          simp only [lookup_entry_cons, ih]
          by_cases hk : k = key
          · subst hk; simp [hne]
          · simp [hk]

theorem get?_insert (t : Table α) (key : String) (value : α) (k : String) :
    (t.insert key value).get? k = if k = key then some value else t.get? k :=
  lookup_insertEntry key value t.entries k

@[simp] theorem get?_insert_self (t : Table α) (key : String) (value : α) :
    (t.insert key value).get? key = some value := by
  simp [get?_insert]

theorem get?_insert_of_ne (t : Table α) {key k : String} (value : α) (h : k ≠ key) :
    (t.insert key value).get? k = t.get? k := by
  simp [get?_insert, h]

theorem get?_erase (t : Table α) (key k : String) :
    (t.erase key).get? k = if k = key then none else t.get? k := by
  have herase : ∀ es : List (String × α),
      (es.filter (·.1 != key)).lookup k = if k = key then none else es.lookup k := by
    intro es
    induction es with
    | nil => simp
    | cons e es ih =>
      obtain ⟨name, v⟩ := e
      rw [lookup_entry_cons]
      by_cases hname : name = key
      · subst hname
        rw [List.filter_cons_of_neg (by simp), ih]
        by_cases hk : k = name <;> simp [hk]
      · rw [List.filter_cons_of_pos (by simpa using hname), lookup_entry_cons, ih]
        by_cases hk : k = key
        · subst hk; simp [Ne.symm hname]
        · simp [hk]
  exact herase t.entries

/-! ### Entries and keys -/

theorem lookup_eq_some_iff_mem {es : List (String × α)} (h : (es.map Prod.fst).Nodup) {key : String}
    {value : α} : es.lookup key = some value ↔ (key, value) ∈ es := by
  induction es with
  | nil => simp
  | cons e es ih =>
      obtain ⟨name, v⟩ := e
      obtain ⟨hnot, hes⟩ := List.nodup_cons.1 h
      rw [lookup_entry_cons, List.mem_cons]
      by_cases hk : key = name
      · subst hk
        have hmem : (key, value) ∉ es := fun hm => hnot (List.mem_map.2 ⟨_, hm, rfl⟩)
        simp [hmem, eq_comm]
      · simp [hk, ih hes]

theorem keys_ascending (t : Table α) : t.keys.Pairwise (· < ·) :=
  List.pairwise_map.2 t.ascending

theorem keys_nodup (t : Table α) : t.keys.Nodup :=
  t.keys_ascending.imp fun {a b} hlt (heq : a = b) => String.lt_irrefl _ (heq ▸ hlt)

theorem get?_eq_some_iff {t : Table α} {key : String} {value : α} :
    t.get? key = some value ↔ (key, value) ∈ t.entries :=
  lookup_eq_some_iff_mem t.keys_nodup

theorem mem_keys_iff {t : Table α} {key : String} : key ∈ t.keys ↔ ∃ value, t.get? key = some value := by
  simp [keys, get?_eq_some_iff]

@[ext] theorem ext {s t : Table α} (h : ∀ key, s.get? key = t.get? key) : s = t := by
  have hentries : s.entries = t.entries := by
    refine eq_of_ascending s.ascending t.ascending ?_
    rintro ⟨key, value⟩
    rw [← get?_eq_some_iff, ← get?_eq_some_iff, h]
  cases s; cases t; cases hentries; rfl

theorem insert_of_get?_eq_some {t : Table α} {key : String} {value : α}
    (h : t.get? key = some value) : t.insert key value = t := by
  ext k : 1
  by_cases hk : k = key
  · simp [hk, h]
  · rw [get?_insert_of_ne t value hk]

/-! ### Tables of lists -/

theorem ofList_append_singleton (es : List (String × α)) (key : String) (value : α) :
    ofList (es ++ [(key, value)]) = (ofList es).insert key value := by
  simp [ofList]

/-- The last value given for a key counts. -/
theorem get?_ofList (es : List (String × α)) (key : String) :
    (ofList es).get? key = es.reverse.lookup key := by
  generalize hr : es.reverse = rs
  induction rs generalizing es with
  | nil => rw [List.reverse_eq_nil_iff.1 hr]; rfl
  | cons e rs ih =>
      obtain ⟨name, v⟩ := e
      have hes : es = rs.reverse ++ [(name, v)] := by rw [← List.reverse_cons, ← hr, List.reverse_reverse]
      rw [hes, ofList_append_singleton, get?_insert, lookup_entry_cons, ih _ rs.reverse_reverse]

theorem get?_ofList_eq_some_iff {es : List (String × α)} (h : (es.map Prod.fst).Nodup)
    {key : String} {value : α} : (ofList es).get? key = some value ↔ (key, value) ∈ es := by
  have hrev : (es.reverse.map Prod.fst).Nodup := by
    rw [List.map_reverse]
    exact List.nodup_reverse.2 h
  rw [get?_ofList, lookup_eq_some_iff_mem hrev, List.mem_reverse]

theorem ofList_toList (t : Table α) : ofList t.toList = t := by
  ext key value
  exact (get?_ofList_eq_some_iff t.keys_nodup).trans get?_eq_some_iff.symm

end Table

theorem NameSet.ofList_keys (s : NameSet) : NameSet.ofList s.keys = s := by
  have hentries : s.keys.map (fun name => (name, ())) = s.toList := by
    rw [Table.keys, Table.toList, List.map_map]
    exact List.map_id _
  rw [NameSet.ofList, hentries, Table.ofList_toList]

end Adventure
