import Mathlib.Data.List.DropRight
import Adventure.Text.Blank
import Adventure.Text.Letter
/-! Blanks. Trimming takes the blanks at both ends away and nothing else; it is done once, and it does not matter
whether letters are made capitals before it or after. Words are what stands between blanks. -/
namespace Adventure

theorem Text.toNat_toUpper (c : Char) :
    c.toUpper.toNat = if 97 ≤ c.toNat ∧ c.toNat ≤ 122 then c.toNat - 32 else c.toNat := by
  have hshift : ('A'.val - 'a'.val).toNat = 2 ^ 32 - 32 := by decide
  unfold Char.toUpper
  split
  · next h =>
    have hrange : 97 ≤ c.toNat ∧ c.toNat ≤ 122 := h
    rw [if_pos hrange, Char.toNat, UInt32.toNat_add, hshift]
    change (c.toNat + _) % _ = _
    omega
  · next h => exact (if_neg h).symm

theorem Text.toUpper_toUpper (c : Char) : c.toUpper.toUpper = c.toUpper := by
  rw [← Char.toNat_inj]
  simp only [toNat_toUpper]
  split_ifs <;> omega

/-- A letter is not blank, in either case. -/
theorem Chars.isBlank_toUpper (c : Char) : isBlank c.toUpper = isBlank c := by
  by_cases h : 97 ≤ c.toNat ∧ c.toNat ≤ 122
  · have hletter : ∀ d : Char, 65 ≤ d.toNat ∧ d.toNat ≤ 122 → isBlank d = false := by
      intro d hd
      simp [isBlank]
      omega
    have hupper := Text.toNat_toUpper c
    rw [if_pos h] at hupper
    rw [hletter c (by omega), hletter c.toUpper (by omega)]
  · have hsame : c.toUpper = c := by rw [← Char.toNat_inj, Text.toNat_toUpper, if_neg h]
    rw [hsame]

theorem Chars.trim_map_toUpper (cs : List Char) : trim (cs.map Char.toUpper) = (trim cs).map Char.toUpper := by
  have hblank : isBlank ∘ Char.toUpper = isBlank := funext isBlank_toUpper
  simp only [trim, dropEndWhile, List.dropWhile_map, hblank, ← List.map_reverse]

/-! ### Ends -/

namespace Chars
variable {cs ds : List Char} {p : Char → Bool}

theorem dropWhile_of_head? (h : ∀ c ∈ cs.head?, p c = false) : cs.dropWhile p = cs := by
  cases cs with
  | nil => rfl
  | cons c cs => exact List.dropWhile_cons_of_neg (by simp [h c rfl])

theorem dropEndWhile_of_getLast? (h : ∀ c ∈ cs.getLast?, p c = false) : dropEndWhile p cs = cs := by
  have hstart : cs.reverse.dropWhile p = cs.reverse := dropWhile_of_head? (by rwa [List.head?_reverse])
  rw [dropEndWhile, hstart, List.reverse_reverse]

theorem dropEndWhile_append (h : ∀ c ∈ ds, p c = true) : dropEndWhile p (cs ++ ds) = dropEndWhile p cs := by
  have hrev : ∀ c ∈ ds.reverse, p c = true := fun c hc => h c (List.mem_reverse.1 hc)
  rw [dropEndWhile, List.reverse_append, List.dropWhile_append_of_pos hrev, dropEndWhile]

theorem exists_eq_dropEndWhile_append (p : Char → Bool) (cs : List Char) :
    ∃ ds, (∀ c ∈ ds, p c = true) ∧ cs = dropEndWhile p cs ++ ds := by
  refine ⟨(cs.reverse.takeWhile p).reverse, fun c hc => List.mem_takeWhile_imp (List.mem_reverse.1 hc), ?_⟩
  rw [dropEndWhile, ← List.reverse_append, List.takeWhile_append_dropWhile, List.reverse_reverse]

theorem not_of_getLast?_dropEndWhile {c : Char} (h : c ∈ (dropEndWhile p cs).getLast?) : p c = false := by
  have hne : dropEndWhile p cs ≠ [] := by
    intro hnil
    rw [hnil] at h
    cases h
  have hlast := List.rdropWhile_last_not p cs hne
  rw [List.getLast?_eq_some_getLast hne, Option.mem_some_iff] at h
  rw [← h]
  exact eq_false_of_ne_true hlast

theorem not_of_head?_dropWhile {c : Char} (h : c ∈ (cs.dropWhile p).head?) : p c = false := by
  have hhead := List.head?_dropWhile_not p cs
  rw [Option.mem_def.1 h] at hhead
  exact hhead

/-- A run of characters stops before one that does not belong to it. -/
theorem takeWhile_append_of_head? (hcs : ∀ c ∈ cs, p c = true) (hds : ∀ c ∈ ds.head?, p c = false) :
    (cs ++ ds).takeWhile p = cs := by
  rw [List.takeWhile_append_of_pos hcs]
  cases ds with
  | nil => rw [List.takeWhile_nil, List.append_nil]
  | cons c ds => rw [List.takeWhile_cons_of_neg (by simp [hds c rfl]), List.append_nil]

theorem dropWhile_append_of_head? (hcs : ∀ c ∈ cs, p c = true) (hds : ∀ c ∈ ds.head?, p c = false) :
    (cs ++ ds).dropWhile p = ds := by
  rw [List.dropWhile_append_of_pos hcs, dropWhile_of_head? hds]

/-! ### Trimming -/

/-- There is no blank at either end. -/
structure Tight (cs : List Char) : Prop where
  first : ∀ c ∈ cs.head?, isBlank c = false
  last : ∀ c ∈ cs.getLast?, isBlank c = false

theorem trim_append (h : ∀ c ∈ ds, isBlank c = true) : trim (cs ++ ds) = trim cs := by
  by_cases hcs : ∀ c ∈ cs, isBlank c = true
  · have hall : ∀ c ∈ cs ++ ds, isBlank c = true := fun c hc => (List.mem_append.1 hc).elim (hcs c) (h c)
    rw [trim, trim, List.dropWhile_eq_nil_iff.2 hall, List.dropWhile_eq_nil_iff.2 hcs]
  · have hne : (cs.dropWhile isBlank).isEmpty = false := by
      rwa [List.isEmpty_eq_false_iff, Ne, List.dropWhile_eq_nil_iff]
    rw [trim, List.dropWhile_append, hne, if_neg Bool.false_ne_true, dropEndWhile_append h, trim]

theorem trim_append_left (h : ∀ c ∈ cs, isBlank c = true) : trim (cs ++ ds) = trim ds := by
  rw [trim, List.dropWhile_append_of_pos h, trim]

theorem Tight.trim_eq (h : Tight cs) : trim cs = cs := by
  rw [trim, dropWhile_of_head? h.first, dropEndWhile_of_getLast? h.last]

theorem tight_trim (cs : List Char) : Tight (trim cs) := by
  refine ⟨fun c hc => ?_, fun c hc => not_of_getLast?_dropEndWhile hc⟩
  obtain ⟨rest, -, hrest⟩ := exists_eq_dropEndWhile_append isBlank (cs.dropWhile isBlank)
  have hhead : (cs.dropWhile isBlank).head? = some c := by
    rw [hrest, List.head?_append, ← trim, Option.mem_def.1 hc]
    rfl
  exact not_of_head?_dropWhile hhead

theorem trim_trim (cs : List Char) : trim (trim cs) = trim cs :=
  (tight_trim cs).trim_eq

/-- Nothing but blanks is taken away. -/
theorem exists_eq_append_trim (cs : List Char) : ∃ before after, (∀ c ∈ before, isBlank c = true) ∧
    (∀ c ∈ after, isBlank c = true) ∧ cs = before ++ trim cs ++ after := by
  obtain ⟨after, hafter, heq⟩ := exists_eq_dropEndWhile_append isBlank (cs.dropWhile isBlank)
  refine ⟨cs.takeWhile isBlank, after, fun c => List.mem_takeWhile_imp, hafter, ?_⟩
  rw [List.append_assoc, trim, ← heq, List.takeWhile_append_dropWhile]

theorem trim_eq_nil_iff : trim cs = [] ↔ ∀ c ∈ cs, isBlank c = true := by
  constructor
  · intro h
    obtain ⟨before, after, hbefore, hafter, heq⟩ := exists_eq_append_trim cs
    rw [h, List.append_nil] at heq
    rw [heq]
    exact fun c hc => (List.mem_append.1 hc).elim (hbefore c) (hafter c)
  · intro h
    rw [trim, List.dropWhile_eq_nil_iff.2 h]
    rfl

/-! ### Words -/

/-- The words stand in the text in this order, with blanks between them. -/
inductive Words : List Char → List (List Char) → Prop
  | nil : Words [] []
  | blank {c : Char} {cs : List Char} {ws : List (List Char)} (hc : isBlank c = true) (h : Words cs ws) :
      Words (c :: cs) ws
  | word {w cs : List Char} {ws : List (List Char)} (hne : w ≠ []) (hw : ∀ c ∈ w, isBlank c = false)
      (hcs : ∀ c ∈ cs.head?, isBlank c = true) (h : Words cs ws) : Words (w ++ cs) (w :: ws)

theorem words_cons_blank {c : Char} (hc : isBlank c = true) (cs : List Char) : words (c :: cs) = words cs := by
  rw [words, List.splitOnP_cons_eq_if_modifyHead, if_pos hc, List.filter_cons_of_neg (by decide), words]

theorem words_append {w : List Char} (hne : w ≠ []) (hw : ∀ c ∈ w, isBlank c = false)
    (hcs : ∀ c ∈ cs.head?, isBlank c = true) : words (w ++ cs) = w :: words cs := by
  have hkept : ∀ ws : List (List Char), (w :: ws).filter (!·.isEmpty) = w :: ws.filter (!·.isEmpty) :=
    fun ws => List.filter_cons_of_pos (by simpa using hne)
  cases cs with
  | nil => rw [List.append_nil, words, List.splitOnP_eq_singleton hw, hkept]; rfl
  | cons c cs =>
      have hc := hcs c rfl
      rw [words_cons_blank hc, words, List.splitOnP_append_cons_of_forall_mem hw c hc, hkept, words]

theorem words_spec (cs : List Char) : Words cs (words cs) := by
  match cs with
  | [] => exact .nil
  | c :: rest =>
      by_cases hc : isBlank c = true
      · rw [words_cons_blank hc]
        exact .blank hc (words_spec rest)
      · let p : Char → Bool := fun c => !isBlank c
        have hne : (c :: rest).takeWhile p ≠ [] := by simp [p, hc]
        have hw : ∀ d ∈ (c :: rest).takeWhile p, isBlank d = false := fun d hd => by
          simpa [p] using List.mem_takeWhile_imp hd
        have hcs : ∀ d ∈ ((c :: rest).dropWhile p).head?, isBlank d = true := fun d hd => by
          simpa [p] using not_of_head?_dropWhile hd
        have hsplit : (c :: rest).takeWhile p ++ (c :: rest).dropWhile p = c :: rest := List.takeWhile_append_dropWhile
        have hshort : ((c :: rest).dropWhile p).length < (c :: rest).length := by
          have hlength := congrArg List.length hsplit
          have hpos := List.length_pos_iff.2 hne
          rw [List.length_append] at hlength
          omega
        rw [← hsplit, words_append hne hw hcs]
        exact .word hne hw hcs (words_spec _)
termination_by cs.length
decreasing_by
  · exact Nat.lt_succ_self rest.length
  · exact hshort

end Chars

/-- A trimmed text is as it is. -/
theorem Text.trim_trim (s : String) : trim (trim s) = trim s := by
  simp only [trim, String.toList_ofList, Chars.trim_trim]

end Adventure
