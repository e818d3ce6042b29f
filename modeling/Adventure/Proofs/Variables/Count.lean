import Adventure.Proofs.Variables.Scopes
/-! What the count of writes tells in a run that may go back to earlier moments. Two moments of one count read the
same, unless a declaration hid a value or the run went back and then reached the count once more. -/
namespace Adventure.Variables

/-- No name tells the two apart. -/
def ReadsAs (v w : Variables) : Prop :=
  ∀ name, v.get name = w.get name

/-- A step of a run. Going back brings the snapshot of an earlier moment back. -/
inductive Step where
  | act (a : Act)
  | clearLocals
  | goBack (ago : Nat)
  deriving DecidableEq, Repr

/-- The variables as they are, and as they were, the latest moment first. -/
structure History where
  now : Variables
  past : List Variables

namespace History

def moments (h : History) : List Variables :=
  h.now :: h.past

/-- Before the first moment there is nothing to go back to; then the present one is taken. -/
def lookBack (h : History) (ago : Nat) : Variables :=
  h.moments.getD ago h.now

def next (h : History) : Step → Variables
  | .act a => h.now.act a
  | .clearLocals => h.now.clearLocals
  | .goBack ago => ofSnapshot (h.lookBack ago).snapshot

def advance (h : History) (s : Step) : History :=
  ⟨h.next s, h.moments⟩

def run (h : History) (steps : List Step) : History :=
  steps.foldl advance h

/-- How many writes a step makes. All that a snapshot brings back counts as one. -/
def writes (h : History) : Step → Nat
  | .act a => writeCount ((h.now.writesOf a).map Prod.fst)
  | .clearLocals => 1
  | .goBack _ => 1

def writesIn (h : History) : List Step → Nat
  | [] => 0
  | s :: steps => h.writes s + (h.advance s).writesIn steps

end History

section ReadsAs
variable {u v w : Variables} {a : Act} {name : String}

theorem ReadsAs.refl (v : Variables) : v.ReadsAs v :=
  fun _ => rfl

theorem ReadsAs.symm (h : v.ReadsAs w) : w.ReadsAs v :=
  fun name => (h name).symm

theorem ReadsAs.trans (h : u.ReadsAs v) (h' : v.ReadsAs w) : u.ReadsAs w :=
  fun name => (h name).trans (h' name)

/-- A declaration is seen at its own name if at all. -/
theorem readsAs_declareLocal (h : (v.declareLocal name).get name = v.get name) :
    v.ReadsAs (v.declareLocal name) := by
  intro other
  by_cases hkey : variableKey other = variableKey name
  · rw [get_same hkey, get_same hkey, h]
  · unfold declareLocal
    dsimp only
    split
    · rfl
    · rw [get, get, isLocal, isLocal, Table.contains, Table.contains, Table.get?_insert_of_ne _ _ hkey]

theorem lastChanged_declareLocal (v : Variables) (name : String) :
    (v.declareLocal name).lastChanged = v.lastChanged := by
  unfold declareLocal
  dsimp only
  split <;> rfl

theorem lastChanged_act (v : Variables) (a : Act) :
    (v.act a).lastChanged = v.lastChanged + .ofNat (writeCount ((v.writesOf a).map Prod.fst)) := by
  rcases v.act_cases a with heq | ⟨name, rfl⟩ | ⟨name, max, rfl⟩
  · rw [heq]
    exact (v.writes_setAll _).lastChanged_eq
  · rw [act, lastChanged_declareLocal, writesOf, List.map_nil, writeCount, List.countP_nil]
    exact (UInt32.add_zero _).symm
  · rw [act, Variables.declareRandom, writesOf, List.map_nil, writeCount, List.countP_nil]
    exact (UInt32.add_zero _).symm

/-- Without a write nothing reads otherwise, unless by a declaration. -/
theorem readsAs_act (hwrites : writeCount ((v.writesOf a).map Prod.fst) = 0)
    (hdecl : ∀ name, a = .declareLocal name → (v.declareLocal name).get name = v.get name) :
    v.ReadsAs (v.act a) := by
  rcases v.act_cases a with heq | ⟨name, rfl⟩ | ⟨name, max, rfl⟩
  · have hw := v.writes_setAll (v.writesOf a)
    rw [hwrites] at hw
    rw [heq, hw.eq_of_zero]
    exact .refl v
  · rw [act]
    exact readsAs_declareLocal (hdecl name rfl)
  · rw [act, Variables.declareRandom]
    exact fun _ => rfl

end ReadsAs

/-! ### Moments -/

/-- The history of a run after `k` of its steps, or after all of them if there are fewer. -/
def historyAt (v : Variables) (steps : List Step) (k : Nat) : History :=
  (History.mk v []).run (steps.take k)

def moment (v : Variables) (steps : List Step) (k : Nat) : Variables :=
  (historyAt v steps k).now

/-- How far the count has come since the start. -/
def age (v w : Variables) : Nat :=
  (w.lastChanged - v.lastChanged).toNat

section Moments
variable {v : Variables} {steps : List Step} {s : Step} {i j k : Nat}

theorem historyAt_succ (h : steps[k]? = some s) : historyAt v steps (k + 1) = (historyAt v steps k).advance s := by
  rw [historyAt, List.take_add_one, h, Option.toList_some, History.run, List.foldl_append]
  rfl

theorem historyAt_succ_of_none (h : steps[k]? = none) : historyAt v steps (k + 1) = historyAt v steps k := by
  rw [historyAt, List.take_add_one, h, Option.toList_none, List.append_nil, historyAt]

theorem moment_succ (h : steps[k]? = some s) : moment v steps (k + 1) = (historyAt v steps k).next s := by
  rw [moment, historyAt_succ h]
  rfl

theorem History.writesIn_append (h : History) (steps rest : List Step) :
    h.writesIn (steps ++ rest) = h.writesIn steps + (h.run steps).writesIn rest := by
  induction steps generalizing h with
  | nil => exact (Nat.zero_add _).symm
  | cons s steps ih => 
      rw [List.cons_append, writesIn, ih, writesIn, Nat.add_assoc]
      rfl

/-- The writes made before the moment. -/
def writesBefore (v : Variables) (steps : List Step) (k : Nat) : Nat :=
  (History.mk v []).writesIn (steps.take k)

theorem writesBefore_succ (h : steps[k]? = some s) :
    writesBefore v steps (k + 1) = writesBefore v steps k + (historyAt v steps k).writes s := by
  rw [writesBefore, List.take_add_one, h, Option.toList_some, History.writesIn_append]
  rfl

theorem writesBefore_le (v : Variables) (steps : List Step) (k : Nat) :
    writesBefore v steps k ≤ (History.mk v []).writesIn steps := by
  conv_rhs => rw [← List.take_append_drop k steps, History.writesIn_append]
  exact Nat.le_add_right _ _

theorem age_of_lastChanged {u w : Variables} {n : Nat} (h : w.lastChanged = u.lastChanged + .ofNat n)
    (hn : age v u + n < UInt32.size) : age v w = age v u + n := by
  have hsum : w.lastChanged - v.lastChanged = (u.lastChanged - v.lastChanged) + .ofNat n := by
    rw [h, UInt32.sub_eq_add_neg, UInt32.sub_eq_add_neg, UInt32.add_assoc, UInt32.add_comm (.ofNat n), UInt32.add_assoc]
  have hlt : n < UInt32.size := by omega
  rw [age, hsum, UInt32.toNat_add, UInt32.toNat_ofNat_of_lt' hlt]
  exact Nat.mod_eq_of_lt hn

theorem History.lookBack_mem (h : History) (ago : Nat) : h.lookBack ago ∈ h.moments := by
  rw [lookBack, List.getD_eq_getElem?_getD]
  cases hmoment : h.moments[ago]? with
  | none => exact List.mem_cons_self
  | some w => exact List.mem_of_getElem? hmoment

theorem age_clearLocals {h : History} (hn : age v h.now + 1 < UInt32.size) :
    age v (h.next .clearLocals) = age v h.now + 1 :=
  age_of_lastChanged rfl hn

theorem age_goBack {h : History} {ago : Nat} (hn : age v (h.lookBack ago) + 1 < UInt32.size) :
    age v (h.next (.goBack ago)) = age v (h.lookBack ago) + 1 :=
  age_of_lastChanged rfl hn

theorem age_act {h : History} {a : Act} (hn : age v h.now + h.writes (.act a) < UInt32.size) :
    age v (h.next (.act a)) = age v h.now + h.writes (.act a) :=
  age_of_lastChanged (h.now.lastChanged_act a) hn

theorem age_next_le {h : History} {n : Nat} (hmoments : ∀ w ∈ h.moments, age v w ≤ n)
    (hn : n + h.writes s < UInt32.size) : age v (h.next s) ≤ n + h.writes s := by
  have hnow := hmoments h.now List.mem_cons_self
  cases s with
  | act a =>
      rw [age_act (by omega)]
      omega
  | clearLocals =>
      rw [History.writes] at hn ⊢
      rw [age_clearLocals (by omega)]
      omega
  | goBack ago =>
      have hmoment := hmoments _ (h.lookBack_mem ago)
      rw [History.writes] at hn ⊢
      rw [age_goBack (by omega)]
      omega

theorem age_le_writesBefore (hsteps : (History.mk v []).writesIn steps < UInt32.size) (k : Nat) :
    ∀ w ∈ (historyAt v steps k).moments, age v w ≤ writesBefore v steps k := by
  induction k with
  | zero =>
      intro w hw
      have hself : age v v = 0 := by rw [age, UInt32.sub_self, UInt32.toNat_zero]
      rw [List.mem_singleton.1 hw]
      exact hself.trans_le (Nat.zero_le _)
  | succ k ih =>
      cases hs : steps[k]? with
      | none =>
          have hsame : writesBefore v steps (k + 1) = writesBefore v steps k := by
            rw [writesBefore, List.take_add_one, hs, Option.toList_none, List.append_nil, writesBefore]
          rw [historyAt_succ_of_none hs, hsame]
          exact ih
      | some s =>
          have hlt := (writesBefore_le v steps (k + 1)).trans_lt hsteps
          rw [writesBefore_succ hs] at hlt ⊢
          rw [historyAt_succ hs]
          exact List.forall_mem_cons.2 ⟨age_next_le ih hlt, fun w hw => Nat.le_add_right_of_le (ih w hw)⟩

/-! ### What the count tells -/

/-- At any two moments of one count every name reads the same. -/
def Identifies (v : Variables) (steps : List Step) : Prop :=
  ∀ i j, (moment v steps i).lastChanged = (moment v steps j).lastChanged →
    (moment v steps i).ReadsAs (moment v steps j)

/-- The step goes back to a moment when the count had not come as far. -/
def Rewinds (v : Variables) (steps : List Step) (k : Nat) : Prop :=
  ∃ ago, steps[k]? = some (.goBack ago) ∧ age v ((historyAt v steps k).lookBack ago) < age v (moment v steps k)

/-- The declarations leave every value in sight. -/
def HidesNothing (v : Variables) (steps : List Step) : Prop :=
  ∀ k name, steps[k]? = some (.act (.declareLocal name)) →
    (moment v steps (k + 1)).get name = (moment v steps k).get name

/-- The later is not behind the earlier, and if it is as far it reads the same. -/
structure Follows (v earlier later : Variables) : Prop where
  le : age v earlier ≤ age v later
  reads : age v earlier = age v later → earlier.ReadsAs later

theorem Follows.refl (v w : Variables) : v.Follows w w :=
  ⟨Nat.le_refl _, fun _ => .refl w⟩

theorem Follows.trans {u w x : Variables} (h : v.Follows u w) (h' : v.Follows w x) : v.Follows u x := by
  refine ⟨h.le.trans h'.le, fun heq => ?_⟩
  have hmid : age v u = age v w := h.le.antisymm (heq ▸ h'.le)
  exact (h.reads hmid).trans (h'.reads (hmid ▸ heq))

theorem follows_of_lt {u w : Variables} (h : age v u < age v w) : v.Follows u w :=
  ⟨h.le, fun heq => absurd heq h.ne⟩

/-- A step that does not rewind. -/
theorem follows_succ (hsteps : (History.mk v []).writesIn steps < UInt32.size) (hhides : HidesNothing v steps)
    (hrewinds : ¬Rewinds v steps k) : v.Follows (moment v steps k) (moment v steps (k + 1)) := by
  cases hs : steps[k]? with
  | none =>
      rw [moment, moment, historyAt_succ_of_none hs]
      exact .refl v _
  | some s =>
      have hlt := (writesBefore_le v steps (k + 1)).trans_lt hsteps
      rw [writesBefore_succ hs] at hlt
      have hages := age_le_writesBefore hsteps k
      have hnow := hages (moment v steps k) List.mem_cons_self
      rw [moment_succ hs]
      cases s with
      | act a =>
          have hage := age_act (hlt.trans_le' (Nat.add_le_add_right hnow _))
          rw [← moment] at hage
          refine ⟨hage ▸ Nat.le_add_right _ _, fun heq => ?_⟩
          have hwrites : (historyAt v steps k).writes (.act a) = 0 := by omega
          refine readsAs_act hwrites ?_
          rintro name rfl
          have hname := hhides k name hs
          rwa [moment_succ hs] at hname
      | clearLocals =>
          have hage := age_clearLocals (hlt.trans_le' (Nat.add_le_add_right hnow _))
          rw [← moment] at hage
          exact follows_of_lt (by omega)
      | goBack ago =>
          have hmoment := hages _ ((historyAt v steps k).lookBack_mem ago)
          have hage := age_goBack (hlt.trans_le' (Nat.add_le_add_right hmoment _))
          have hfar : age v (moment v steps k) ≤ age v ((historyAt v steps k).lookBack ago) :=
            Nat.le_of_not_lt fun hback => hrewinds ⟨ago, hs, hback⟩
          exact follows_of_lt (by omega)

theorem follows_of_le (hsteps : (History.mk v []).writesIn steps < UInt32.size) (hhides : HidesNothing v steps)
    (hij : i ≤ j) (hrewinds : ∀ k, i ≤ k → k < j → ¬Rewinds v steps k) :
    v.Follows (moment v steps i) (moment v steps j) := by
  induction j, hij using Nat.le_induction with
  | base => exact .refl v _
  | succ j hij ih =>
      exact (ih fun k hik hkj => hrewinds k hik (hkj.trans (Nat.lt_succ_self j))).trans
        (follows_succ hsteps hhides (hrewinds j hij (Nat.lt_succ_self j)))

/-- Two moments of one count read the same, exactly if no declaration hides a value and no moment after one at which
the run goes back to a smaller count has the count of a moment before it and reads otherwise. -/
theorem identifies_iff (v : Variables) (steps : List Step)
    (hsteps : (History.mk v []).writesIn steps < UInt32.size) :
    Identifies v steps ↔ HidesNothing v steps ∧
      ∀ k, Rewinds v steps k → ∀ i j, i ≤ k → k < j →
        (moment v steps i).lastChanged = (moment v steps j).lastChanged →
        (moment v steps i).ReadsAs (moment v steps j) := by
  constructor
  · intro h
    refine ⟨fun k name hs => h (k + 1) k ?_ name, fun k _ i j _ _ => h i j⟩
    rw [moment_succ hs, History.next, act, lastChanged_declareLocal, moment]
  · rintro ⟨hhides, hback⟩
    have hforward : ∀ i j, i ≤ j → (moment v steps i).lastChanged = (moment v steps j).lastChanged →
        (moment v steps i).ReadsAs (moment v steps j) := by
      intro i j hij hcount
      by_cases hrewinds : ∃ k, (i ≤ k ∧ k < j) ∧ Rewinds v steps k
      · obtain ⟨k, ⟨hik, hkj⟩, hk⟩ := hrewinds
        exact hback k hk i j hik hkj hcount
      · have hfollows := follows_of_le hsteps hhides hij fun k hik hkj hk => hrewinds ⟨k, ⟨hik, hkj⟩, hk⟩
        exact hfollows.reads (by rw [age, age, hcount])
    intro i j hcount
    rcases Nat.le_total i j with hij | hji
    · exact hforward i j hij hcount
    · exact (hforward j i hji hcount.symm).symm

end Moments

/-- A coat is put on, and the snapshot of the present moment is brought back at once. -/
def coatSteps : List Step :=
  [.act (.set "coat" 1), .act (.declareLocal "hat"), .goBack 0, .act (.change "hat !coat")]

theorem identifies_iff_coat :
    (History.mk empty []).writesIn coatSteps < UInt32.size ∧ Identifies empty coatSteps := by
  have hwrites : (History.mk empty []).writesIn coatSteps < UInt32.size := by decide +kernel
  refine ⟨hwrites, (identifies_iff empty coatSteps hwrites).2 ⟨fun k name hs => ?_, fun k hk => ?_⟩⟩
  · rcases k with _ | _ | _ | _ | k
    · cases hs
    · cases hs
      decide +kernel
    · cases hs
    · cases hs
    · cases hs
  · obtain ⟨ago, hs, hage⟩ := hk
    rcases k with _ | _ | _ | _ | k
    · cases hs
    · cases hs
    · cases hs
      exact absurd hage (by decide +kernel)
    · cases hs
    · cases hs

/-- The run goes back, and then a declaration hides what came back. -/
def hiddenSteps : List Step :=
  [.act (.set "A" 1), .act (.set "A" 2), .goBack 1, .act (.declareLocal "A")]

theorem hidden_not_identifies :
    (moment empty hiddenSteps 2).lastChanged = 2 ∧ (moment empty hiddenSteps 3).lastChanged = 2 ∧
      (moment empty hiddenSteps 4).lastChanged = 2 ∧ (moment empty hiddenSteps 2).get "A" = 2 ∧
      (moment empty hiddenSteps 3).get "A" = 1 ∧ (moment empty hiddenSteps 4).get "A" = 0 ∧
      ¬Identifies empty hiddenSteps := by
  refine ⟨by decide +kernel, by decide +kernel, by decide +kernel, by decide +kernel, by decide +kernel,
    by decide +kernel, fun h => ?_⟩
  have hsame := h 2 3 (by decide +kernel) "A"
  exact absurd hsame (by decide +kernel)

end Adventure.Variables
