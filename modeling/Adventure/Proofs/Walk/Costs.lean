import Mathlib.Algebra.Order.BigOperators.Group.Finset
import Adventure.Proofs.Walk.Explore
/-! The costs at which the calls of a search enter nodes. Each call lowers the cost of its node and so the sum of all
costs, which is why there are not endlessly many. Along a path every node was entered for at most the steps to it, so
a node that may be entered does not stand on the path. -/
namespace Adventure.Walk

/-- A search from a node that was put at the end of the path. -/
structure Call where
  node : Nat
  path : List Nat
  cost : Nat

variable {size budget cost node v : Nat} {path : List Nat} {memo memo' memo'' : Memo} {calls calls' : List Call}

namespace Memo

theorem lower_of_free (h : memo.access cost node = .free) : ∀ k ∈ memo.entered node, cost < k := by
  intro k hk
  have hget : memo.costs.getD node none = some k := hk
  rw [Memo.access, hget] at h
  dsimp only at h
  split at h
  · cases h
  · next hle => exact Nat.not_le.1 hle

theorem within_enter {n : Nat} (hnode : node < memo.costs.size) (hlower : ∀ k ∈ memo.entered node, cost < k)
    (h : Within n (memo.entered v)) : Within n ((memo.enter cost node).entered v) := by
  rw [Memo.entered_enter hnode]
  split
  · next hv =>
    subst hv
    obtain ⟨k, hk, hle⟩ := h
    exact within_some.2 ((Nat.le_of_lt (hlower k hk)).trans hle)
  · exact h

end Memo

/-! ### Lowering costs -/

/-- The calls enter their nodes in turn, each at a lower cost than before. -/
inductive Lowers : Memo → List Call → Memo → Prop
  | nil {memo : Memo} : Lowers memo [] memo
  | cons {memo memo' : Memo} {call : Call} {calls : List Call} (hlower : ∀ k ∈ memo.entered call.node, call.cost < k)
      (h : Lowers (memo.enter call.cost call.node) calls memo') : Lowers memo (call :: calls) memo'

theorem Lowers.append (h : Lowers memo calls memo') (h' : Lowers memo' calls' memo'') :
    Lowers memo (calls ++ calls') memo'' := by
  induction h with
  | nil => exact h'
  | cons hlower _ ih => exact .cons hlower (ih h')

theorem Lowers.size_eq (h : Lowers memo calls memo') : memo'.costs.size = memo.costs.size := by
  induction h with
  | nil => rfl
  | cons _ _ ih => rw [ih, Memo.size_enter]

theorem Lowers.within {n : Nat} (h : Lowers memo calls memo') (hcalls : ∀ call ∈ calls, call.node < memo.costs.size)
    (hv : Within n (memo.entered v)) : Within n (memo'.entered v) := by
  induction h with
  | nil => exact hv
  | @cons memo memo' call calls hlower _ ih =>
      refine ih (fun call' hcall' => ?_) (Memo.within_enter (hcalls call List.mem_cons_self) hlower hv)
      rw [Memo.size_enter]
      exact hcalls call' (List.mem_cons_of_mem call hcall')

/-- The sum of all costs, where a node that was not entered counts as much as all nodes. -/
def Memo.weight (size : Nat) (memo : Memo) : Nat :=
  ∑ v ∈ Finset.range size, (memo.entered v).getD size

theorem Memo.weight_enter_lt (hsize : memo.costs.size = size) (hnode : node < size) (hcost : cost < size)
    (hlower : ∀ k ∈ memo.entered node, cost < k) : (memo.enter cost node).weight size < memo.weight size := by
  have hentered : ∀ v, (memo.enter cost node).entered v = if v = node then some cost else memo.entered v :=
    fun v => Memo.entered_enter (hsize ▸ hnode) cost v
  have hlt : cost < (memo.entered node).getD size := by
    cases hk : memo.entered node with
    | none => exact hcost
    | some k => exact hlower k hk
  refine Finset.sum_lt_sum (fun v _ => ?_) ⟨node, Finset.mem_range.2 hnode, ?_⟩
  · rw [hentered]
    split
    · next hv => exact hv ▸ Nat.le_of_lt hlt
    · exact Nat.le_refl _
  · rw [hentered, if_pos rfl]
    exact hlt

/-- There are no more calls than the sum of the costs can be lowered. -/
theorem Lowers.length_add_weight_le (h : Lowers memo calls memo') (hsize : memo.costs.size = size)
    (hcalls : ∀ call ∈ calls, call.node < size ∧ call.cost < size) :
    calls.length + memo'.weight size ≤ memo.weight size := by
  induction h with
  | nil => exact Nat.le_of_eq (Nat.zero_add _)
  | @cons memo memo' call calls hlower _ ih =>
      obtain ⟨hnode, hcost⟩ := hcalls call List.mem_cons_self
      have hrest := ih ((Memo.size_enter memo _ _).trans hsize) fun call' hcall' =>
        hcalls call' (List.mem_cons_of_mem call hcall')
      have hlt := Memo.weight_enter_lt hsize hnode hcost hlower
      rw [List.length_cons]
      omega

theorem Memo.weight_le (hall : ∀ v, ∀ k ∈ memo.entered v, k ≤ size) : memo.weight size ≤ size * size := by
  have hle : ∀ v ∈ Finset.range size, (memo.entered v).getD size ≤ size := by
    intro v _
    cases hk : memo.entered v with
    | none => exact Nat.le_refl size
    | some k => exact hall v k hk
  have hsum := Finset.sum_le_card_nsmul _ _ _ hle
  rwa [Finset.card_range, Nat.nsmul_eq_mul] at hsum

/-! ### Paths -/

theorem length_le_of_forall_lt {nodes : List Nat} (hnodup : nodes.Nodup) (hlt : ∀ v ∈ nodes, v < size) :
    nodes.length ≤ size := by
  have hsub : nodes ⊆ List.range size := fun v hv => List.mem_range.2 (hlt v hv)
  simpa using (hnodup.subperm hsub).length_le

/-- A path from a node that was entered at no cost. Each node was entered for at most the steps to it. -/
structure Trodden (size : Nat) (memo : Memo) (path : List Nat) : Prop where
  nodup : path.Nodup
  lt : ∀ v ∈ path, v < size
  entered : ∀ v rest, v :: rest <:+ path → Within rest.length (memo.entered v)

theorem Trodden.within (h : Trodden size memo path) (hv : v ∈ path) :
    ∃ k ∈ memo.entered v, k + 1 ≤ path.length := by
  obtain ⟨before, rest, rfl⟩ := List.append_of_mem hv
  obtain ⟨k, hk, hle⟩ := h.entered v rest ⟨before, rfl⟩
  refine ⟨k, hk, ?_⟩
  rw [List.length_append, List.length_cons]
  omega

theorem Trodden.lowers (h : Trodden size memo path) (hlowers : Lowers memo calls memo')
    (hcalls : ∀ call ∈ calls, call.node < memo.costs.size) : Trodden size memo' path where
  nodup := h.nodup
  lt := h.lt
  entered v rest hsuffix := hlowers.within hcalls (h.entered v rest hsuffix)

/-- A node that may be entered is not on the path. -/
theorem Trodden.enter (h : Trodden size memo path) (hsize : memo.costs.size = size) (hnode : node < size)
    (hlower : ∀ k ∈ memo.entered node, path.length < k) :
    Trodden size (memo.enter path.length node) (node :: path) where
  nodup := by
    refine List.nodup_cons.2 ⟨fun hmem => ?_, h.nodup⟩
    obtain ⟨k, hk, hle⟩ := h.within hmem
    have hlt := hlower k hk
    omega
  lt := List.forall_mem_cons.2 ⟨hnode, h.lt⟩
  entered v rest hsuffix := by
    rcases List.suffix_cons_iff.1 hsuffix with heq | hsuffix
    · cases heq
      rw [Memo.entered_enter (hsize ▸ hnode), if_pos rfl]
      exact within_some.2 (Nat.le_refl _)
    · exact Memo.within_enter (hsize ▸ hnode) hlower (h.entered v rest hsuffix)

/-- The call puts a new node at the end of a path without repetition. -/
structure Call.Extends (size : Nat) (call : Call) : Prop where
  nodup : (call.node :: call.path).Nodup
  node_lt : call.node < size
  cost_eq : call.cost = call.path.length
  cost_lt : call.cost < size

/-! ### Budgets -/

/-- The same costs, and at least as large a budget. -/
structure Memo.Richer (memo memo' : Memo) : Prop where
  costs : memo'.costs = memo.costs
  budget : memo.budget ≤ memo'.budget

theorem Memo.Richer.access_eq (h : memo.Richer memo') (haccess : memo.access cost node ≠ .exhausted) :
    memo'.access cost node = memo.access cost node := by
  unfold Memo.access at haccess ⊢
  rw [h.costs]
  split
  · rfl
  · next hnew =>
    rw [hnew] at haccess
    have hle := h.budget
    have hzero : memo.budget ≠ 0 := fun hzero => haccess (if_pos hzero)
    rw [if_neg hzero, if_neg (by omega)]

theorem Memo.Richer.enter (h : memo.Richer memo') (cost node : Nat) :
    Memo.Richer (memo.enter cost node) (memo'.enter cost node) where
  costs := congrArg (Array.setIfInBounds · node (some cost)) h.costs
  budget := by
    unfold Memo.enter
    rw [h.costs]
    exact Nat.sub_le_sub_right h.budget _

end Adventure.Walk
