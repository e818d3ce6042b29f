import Adventure.Proofs.Walk.Costs
/-! The calls of a search. `Runs` says call by call what a search does with its path and its memo; nothing in it limits
how deep the calls go. A call always lowers the cost of a node, and so the sum of all costs; that is why the calls end,
and why no node stands twice on a path. -/
namespace Adventure.Walk

/-- How a search from a node ends. -/
inductive Signal where
  | found
  /-- With the least sum beyond the bound; none if nothing lies beyond it. -/
  | next (sum : Option Nat)
  | exhausted
  deriving DecidableEq, Repr

def Verdict.signal : Verdict → Signal
  | .found _ => .found
  | .beyond sum => .next sum
  | .exhausted => .exhausted

/-- What is to be done at the end of a path. The latest node of the path comes first. -/
inductive Task where
  | search (path : List Nat) (cost : Nat)
  /-- The nodes of a list are entered in turn; so far this was the least sum. -/
  | enter (path : List Nat) (cost : Nat) (nodes : List Nat) (sum : Option Nat)

namespace Task

def path : Task → List Nat
  | .search path _ => path
  | .enter path _ _ _ => path

def cost : Task → Nat
  | .search _ cost => cost
  | .enter _ cost _ _ => cost

/-- The nodes that are still to be entered. -/
def nodes : Task → List Nat
  | .search _ _ => []
  | .enter _ _ nodes _ => nodes

def sum : Task → Option Nat
  | .search _ _ => none
  | .enter _ _ _ sum => sum

end Task

structure Outcome where
  signal : Signal
  path : List Nat
  memo : Memo

/-- What a task comes to, with the calls in their order. Only where a call reports a sum the last node is taken off the
path again. -/
inductive Terrain.Runs (t : Terrain) (bound : Nat) : Task → Memo → List Call → Outcome → Prop where
  | nowhere {cost : Nat} {memo : Memo} : Runs t bound (.search [] cost) memo [] ⟨.next none, [], memo⟩
  | above {node cost : Nat} {path : List Nat} {memo : Memo} (h : bound < cost + t.estimate node) :
      Runs t bound (.search (node :: path) cost) memo []
        ⟨.next (some (cost + t.estimate node)), node :: path, memo⟩
  | goal {node cost : Nat} {path : List Nat} {memo : Memo} (h : ¬bound < cost + t.estimate node)
      (hgoal : node = t.goal) :
      Runs t bound (.search (node :: path) cost) memo [] ⟨.found, node :: path, memo⟩
  | spread {node cost : Nat} {path : List Nat} {memo : Memo} {calls : List Call} {out : Outcome}
      (h : ¬bound < cost + t.estimate node) (hgoal : node ≠ t.goal)
      (hrun : Runs t bound (.enter (node :: path) cost (t.neighbours node) none) memo calls out) :
      Runs t bound (.search (node :: path) cost) memo calls out
  | done {cost : Nat} {path : List Nat} {sum : Option Nat} {memo : Memo} :
      Runs t bound (.enter path cost [] sum) memo [] ⟨.next sum, path, memo⟩
  | closed {node cost : Nat} {path nodes : List Nat} {sum : Option Nat} {memo : Memo} {calls : List Call}
      {out : Outcome} (h : memo.access (cost + 1) node = .closed)
      (hrest : Runs t bound (.enter path cost nodes sum) memo calls out) :
      Runs t bound (.enter path cost (node :: nodes) sum) memo calls out
  | short {node cost : Nat} {path nodes : List Nat} {sum : Option Nat} {memo : Memo}
      (h : memo.access (cost + 1) node = .exhausted) :
      Runs t bound (.enter path cost (node :: nodes) sum) memo [] ⟨.exhausted, path, memo⟩
  | leave {node cost : Nat} {path nodes : List Nat} {sum : Option Nat} {memo : Memo} {calls : List Call}
      {out : Outcome} (h : memo.access (cost + 1) node = .free)
      (hcall : Runs t bound (.search (node :: path) (cost + 1)) (memo.enter (cost + 1) node) calls out)
      (hout : ∀ sum', out.signal ≠ .next sum') :
      Runs t bound (.enter path cost (node :: nodes) sum) memo (⟨node, path, cost + 1⟩ :: calls) out
  | back {node cost : Nat} {path path' nodes : List Nat} {sum sum' : Option Nat} {memo memo' : Memo}
      {calls calls' : List Call} {out : Outcome} (h : memo.access (cost + 1) node = .free)
      (hcall : Runs t bound (.search (node :: path) (cost + 1)) (memo.enter (cost + 1) node) calls
        ⟨.next sum', path', memo'⟩)
      (hrest : Runs t bound (.enter path'.tail cost nodes (least sum sum')) memo' calls' out) :
      Runs t bound (.enter path cost (node :: nodes) sum) memo
        (⟨node, path, cost + 1⟩ :: (calls ++ calls')) out

variable {t : Terrain} {size budget bound left cost start node v : Nat} {path : List Nat}
  {sum : Option Nat} {task : Task} {memo memo' memo'' : Memo} {calls calls' : List Call} {out out' : Outcome}

namespace Terrain

/-! ### Sums and paths -/

/-- A task that reports a sum leaves the path as it was. -/
theorem Runs.path_eq (h : t.Runs bound task memo calls out) (hout : out.signal = .next sum) :
    out.path = task.path := by
  induction h generalizing sum with
  | nowhere => rfl
  | above => rfl
  | goal => cases hout
  | spread _ _ _ ih => exact ih hout
  | done => rfl
  | closed _ _ ih => exact ih hout
  | short => cases hout
  | leave _ _ hleave _ => exact absurd hout (hleave sum)
  | back _ _ _ ihcall ihrest =>
      have hpath := ihcall rfl
      dsimp only [Task.path] at hpath
      rw [ihrest hout, hpath]
      rfl

/-- A node at which the path ends, with its steps and its estimate: the last one at the start or at a call. -/
def Ends (t : Terrain) (task : Task) (calls : List Call) (s : Nat) : Prop :=
  (∃ node ∈ task.path.head?, s = task.cost + t.estimate node) ∨ ∃ call ∈ calls, s = call.cost + t.estimate call.node

/-- A sum that a task reports was reported before, or it lies beyond the bound and belongs to the end of a path. -/
theorem Runs.reported (h : t.Runs bound task memo calls out) (hout : out.signal = .next sum) {s : Nat}
    (hs : s ∈ sum) : s ∈ task.sum ∨ bound < s ∧ t.Ends task calls s := by
  induction h generalizing sum s with
  | nowhere =>
      cases hout
      cases hs
  | @above node cost path memo h =>
      cases hout
      cases hs
      exact .inr ⟨h, .inl ⟨node, rfl, rfl⟩⟩
  | goal => cases hout
  | spread _ _ _ ih => exact ih hout hs
  | done =>
      cases hout
      exact .inl hs
  | closed _ _ ih => exact ih hout hs
  | short => cases hout
  | leave _ _ hleave _ => exact absurd hout (hleave sum)
  | back _ hcall _ ihcall ihrest =>
      rcases ihrest hout hs with hleast | ⟨hbeyond, hend | ⟨call, hmem, heq⟩⟩
      · rcases mem_least hleast with hsum | hsum'
        · exact .inl hsum
        · refine .inr ?_
          rcases ihcall rfl hsum' with hnone | ⟨hbeyond, ⟨node, hnode, heq⟩ | ⟨call, hmem, heq⟩⟩
          · cases hnone
          · cases hnode
            exact ⟨hbeyond, .inr ⟨_, List.mem_cons_self, heq⟩⟩
          · exact ⟨hbeyond, .inr ⟨call, List.mem_cons_of_mem _ (List.mem_append_left _ hmem), heq⟩⟩
      · have hpath := hcall.path_eq rfl
        dsimp only [Task.path] at hpath
        rw [hpath] at hend
        exact .inr ⟨hbeyond, .inl hend⟩
      · exact .inr ⟨hbeyond, .inr ⟨call, List.mem_cons_of_mem _ (List.mem_append_right _ hmem), heq⟩⟩

/-! ### The search that is run -/

/-- What a task is done with comes to the result. The path that is found continues the present one. -/
def RunsTo (t : Terrain) (bound : Nat) (task : Task) (memo : Memo) (path : List Nat) (result : Verdict × Memo) :
    Prop :=
  ∃ calls path', t.Runs bound task memo calls ⟨result.1.signal, path', result.2⟩ ∧
    ∀ way, result.1 = .found way → path' = way.reverse ++ path

theorem runsTo_scan {visit : Nat → Memo → Verdict × Memo} (hvisit : ∀ node memo,
      t.RunsTo bound (.search (node :: path) (cost + 1)) memo path (visit node memo))
    (nodes : List Nat) (sum : Option Nat) (memo : Memo) :
    t.RunsTo bound (.enter path cost nodes sum) memo path (scan visit (cost + 1) nodes sum memo) := by
  induction nodes generalizing sum memo with
  | nil => exact ⟨[], path, .done, by rintro _ ⟨⟩⟩
  | cons node nodes ih =>
      rw [scan]
      cases haccess : memo.access (cost + 1) node with
      | closed =>
          obtain ⟨calls, path', hruns, hfound⟩ := ih sum memo
          exact ⟨calls, path', .closed haccess hruns, hfound⟩
      | exhausted => exact ⟨[], path, .short haccess, by rintro _ ⟨⟩⟩
      | free =>
          obtain ⟨calls, path', hcall, hfound⟩ := hvisit node (memo.enter (cost + 1) node)
          dsimp only
          generalize visit node (memo.enter (cost + 1) node) = result at hcall hfound ⊢
          obtain ⟨verdict, memo'⟩ := result
          cases verdict with
          | found way => exact ⟨_, path', .leave haccess hcall (by rintro _ ⟨⟩), hfound⟩
          | exhausted => exact ⟨_, path', .leave haccess hcall (by rintro _ ⟨⟩), by rintro _ ⟨⟩⟩
          | beyond sum' =>
              obtain rfl : path' = node :: path := hcall.path_eq rfl
              obtain ⟨calls', path'', hrest, hfound'⟩ := ih (least sum sum') memo'
              exact ⟨_, path'', .back haccess hcall hrest, hfound'⟩

/-- `follow` counts the steps that are left, the calls count those that were made. -/
theorem runsTo_follow (hcost : cost + left = bound + 1) (node : Nat) (path : List Nat) (memo : Memo) :
    t.RunsTo bound (.search (node :: path) cost) memo path (follow t bound left node memo) := by
  induction left generalizing cost node path memo with
  | zero =>
      obtain rfl : cost = bound + 1 := hcost
      exact ⟨[], node :: path, .above (by omega), by rintro _ ⟨⟩⟩
  | succ left ih =>
      obtain rfl : cost = bound - left := by omega
      rw [follow]
      split
      · next h => exact ⟨[], node :: path, .above h, by rintro _ ⟨⟩⟩
      · next h =>
        split
        · next hgoal =>
          refine ⟨[], node :: path, .goal h hgoal, fun way hway => ?_⟩
          cases hway
          rfl
        · next hgoal =>
          have hscan : t.RunsTo bound (.enter (node :: path) (bound - left) (t.neighbours node) none) memo
              (node :: path) (scan (follow t bound left) (bound - left + 1) (t.neighbours node) none memo) :=
            runsTo_scan (fun node memo => ih (by omega) node _ memo) _ none memo
          generalize scan (follow t bound left) (bound - left + 1) (t.neighbours node) none memo = result
            at hscan ⊢
          obtain ⟨calls, path', hruns, hfound⟩ := hscan
          obtain ⟨verdict, memo'⟩ := result
          refine ⟨calls, path', .spread h hgoal ?_, fun way hway => ?_⟩
          · cases verdict <;> exact hruns
          · cases verdict with
            | found way' =>
                cases hway
                rw [hfound way' rfl, List.reverse_cons, List.append_assoc]
                rfl
            | beyond sum => cases hway
            | exhausted => cases hway

/-- What a task comes to is determined. -/
theorem Runs.unique (h : t.Runs bound task memo calls out) (h' : t.Runs bound task memo calls' out') :
    calls = calls' ∧ out = out' := by
  induction h generalizing calls' out' with
  | nowhere =>
      cases h'
      exact ⟨rfl, rfl⟩
  | above h =>
      cases h' with
      | above => exact ⟨rfl, rfl⟩
      | goal hnot _ => exact absurd h hnot
      | spread hnot _ _ => exact absurd h hnot
  | goal h hgoal =>
      cases h' with
      | above h' => exact absurd h' h
      | goal => exact ⟨rfl, rfl⟩
      | spread _ hne _ => exact absurd hgoal hne
  | spread h hgoal _ ih =>
      cases h' with
      | above h' => exact absurd h' h
      | goal _ heq => exact absurd heq hgoal
      | spread _ _ hrun' => exact ih hrun'
  | done =>
      cases h'
      exact ⟨rfl, rfl⟩
  | closed h _ ih =>
      cases h' with
      | closed _ hrest' => exact ih hrest'
      | short h' => cases h.symm.trans h'
      | leave h' _ _ => cases h.symm.trans h'
      | back h' _ _ => cases h.symm.trans h'
  | short h =>
      cases h' with
      | closed h' _ => cases h.symm.trans h'
      | short _ => exact ⟨rfl, rfl⟩
      | leave h' _ _ => cases h.symm.trans h'
      | back h' _ _ => cases h.symm.trans h'
  | leave h _ hout ih =>
      cases h' with
      | closed h' _ => cases h.symm.trans h'
      | short h' => cases h.symm.trans h'
      | leave _ hcall' _ =>
          obtain ⟨rfl, rfl⟩ := ih hcall'
          exact ⟨rfl, rfl⟩
      | back _ hcall' _ => exact absurd (congrArg Outcome.signal (ih hcall').2) (hout _)
  | back h _ _ ihcall ihrest =>
      cases h' with
      | closed h' _ => cases h.symm.trans h'
      | short h' => cases h.symm.trans h'
      | leave _ hcall' hout' => exact absurd (congrArg Outcome.signal (ihcall hcall').2.symm) (hout' _)
      | back _ hcall' hrest' =>
          obtain ⟨rfl, hsame⟩ := ihcall hcall'
          cases hsame
          obtain ⟨rfl, rfl⟩ := ihrest hrest'
          exact ⟨rfl, rfl⟩

/-! ### Calls -/

/-- Whatever a search does, its calls lower costs. -/
theorem Runs.lowers (h : t.Runs bound task memo calls out) : Lowers memo calls out.memo := by
  induction h with
  | nowhere => exact .nil
  | above => exact .nil
  | goal => exact .nil
  | spread _ _ _ ih => exact ih
  | done => exact .nil
  | closed _ _ ih => exact ih
  | short => exact .nil
  | leave h _ _ ih => exact .cons (Memo.lower_of_free h) ih
  | back h _ _ ihcall ihrest => exact .cons (Memo.lower_of_free h) (ihcall.append ihrest)

end Terrain

/-- The task starts at the end of a trodden path. -/
structure Task.Ready (size : Nat) (task : Task) (memo : Memo) : Prop where
  size_eq : memo.costs.size = size
  trodden : Trodden size memo task.path
  cost_eq : task.cost + 1 = task.path.length
  nodes_lt : ∀ v ∈ task.nodes, v < size

namespace Task.Ready

variable {nodes : List Nat}

theorem call (h : (Task.enter path cost (node :: nodes) sum).Ready size memo)
    (hfree : memo.access (cost + 1) node = .free) :
    (Task.search (node :: path) (cost + 1)).Ready size (memo.enter (cost + 1) node) ∧
      Call.Extends size ⟨node, path, cost + 1⟩ := by
  have hcost : cost + 1 = path.length := h.cost_eq
  have hnode : node < size := h.nodes_lt node List.mem_cons_self
  have hlower := Memo.lower_of_free hfree
  rw [hcost] at hlower ⊢
  have htrodden : Trodden size (memo.enter path.length node) (node :: path) := h.trodden.enter h.size_eq hnode hlower
  have hlength : path.length + 1 ≤ size := length_le_of_forall_lt htrodden.nodup htrodden.lt
  exact ⟨⟨(memo.size_enter _ _).trans h.size_eq, htrodden, rfl, nofun⟩, htrodden.nodup, hnode, rfl, hlength⟩

theorem after (h : (Task.enter path cost (node :: nodes) sum).Ready size memo) (hlowers : Lowers memo calls memo')
    (hcalls : ∀ call ∈ calls, call.Extends size) (sum' : Option Nat) :
    (Task.enter path cost nodes sum').Ready size memo' where
  size_eq := hlowers.size_eq.trans h.size_eq
  trodden := h.trodden.lowers hlowers fun call hcall => h.size_eq ▸ (hcalls call hcall).node_lt
  cost_eq := h.cost_eq
  nodes_lt v hv := h.nodes_lt v (List.mem_cons_of_mem node hv)

end Task.Ready

namespace Terrain

/-- Every call extends its path by a node that is not on it. -/
theorem Runs.extends (hclosed : ∀ v, ∀ w ∈ t.neighbours v, w < size) (h : t.Runs bound task memo calls out)
    (hready : task.Ready size memo) : ∀ call ∈ calls, call.Extends size := by
  induction h with
  | nowhere => nofun
  | above => nofun
  | goal => nofun
  | spread _ _ _ ih => exact ih ⟨hready.size_eq, hready.trodden, hready.cost_eq, hclosed _⟩
  | done => nofun
  | closed _ _ ih => exact ih (hready.after .nil nofun _)
  | short => nofun
  | leave h _ _ ih =>
      obtain ⟨hcall, hextends⟩ := hready.call h
      exact List.forall_mem_cons.2 ⟨hextends, ih hcall⟩
  | @back node cost path path' nodes sum sum' memo memo' calls calls' out h hcall _ ihcall ihrest =>
      obtain ⟨hready', hextends⟩ := hready.call h
      have hcalls : ∀ call ∈ ⟨node, path, cost + 1⟩ :: calls, call.Extends size :=
        List.forall_mem_cons.2 ⟨hextends, ihcall hready'⟩
      have hlowers : Lowers memo (⟨node, path, cost + 1⟩ :: calls) memo' :=
        .cons (Memo.lower_of_free h) hcall.lowers
      obtain rfl : path' = node :: path := hcall.path_eq rfl
      have hrest := ihrest (hready.after hlowers hcalls _)
      rw [← List.cons_append]
      exact List.forall_mem_append.2 ⟨hcalls, hrest⟩

/-- A task that is not cut off is done in the same way with a larger budget. -/
theorem Runs.richer (h : t.Runs bound task memo calls out) (hout : out.signal ≠ .exhausted) {rich : Memo}
    (hrich : memo.Richer rich) :
    ∃ rich', t.Runs bound task rich calls ⟨out.signal, out.path, rich'⟩ ∧ out.memo.Richer rich' := by
  induction h generalizing rich with
  | nowhere => exact ⟨rich, .nowhere, hrich⟩
  | above h => exact ⟨rich, .above h, hrich⟩
  | goal h hgoal => exact ⟨rich, .goal h hgoal, hrich⟩
  | spread h hgoal _ ih =>
      obtain ⟨rich', hruns, hrich'⟩ := ih hout hrich
      exact ⟨rich', .spread h hgoal hruns, hrich'⟩
  | done => exact ⟨rich, .done, hrich⟩
  | closed h _ ih =>
      obtain ⟨rich', hruns, hrich'⟩ := ih hout hrich
      have haccess := hrich.access_eq (by rw [h]; nofun)
      exact ⟨rich', .closed (haccess.trans h) hruns, hrich'⟩
  | short => exact absurd rfl hout
  | leave h _ hleave ih =>
      obtain ⟨rich', hruns, hrich'⟩ := ih hout (hrich.enter _ _)
      have haccess := hrich.access_eq (by rw [h]; nofun)
      exact ⟨rich', .leave (haccess.trans h) hruns hleave, hrich'⟩
  | back h _ _ ihcall ihrest =>
      obtain ⟨rich', hcall, hrich'⟩ := ihcall nofun (hrich.enter _ _)
      obtain ⟨rich'', hrest, hrich''⟩ := ihrest hout hrich'
      have haccess := hrich.access_eq (by rw [h]; nofun)
      exact ⟨rich'', .back (haccess.trans h) hcall hrest, hrich''⟩

end Terrain
end Adventure.Walk
