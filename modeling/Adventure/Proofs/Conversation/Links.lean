import Adventure.Proofs.Conversation.Acts
import Adventure.Proofs.Conversation.Outline
/-! The links of a conversation are indices. Reading gives each entry to the node that it stands in, and from
then on every index that is looked up is in range, whatever is done with the conversation and whatever
snapshot is loaded. -/
namespace Adventure.Conversation

/-! ### Numbers in groups -/

/-- The groups hold the numbers from 0 on in their order, and each number knows its group. -/
structure Grouped (groups : List (List Nat)) (owners : List Nat) : Prop where
  flatten : groups.flatten = List.range owners.length
  owner {k : Nat} {group : List Nat} : groups[k]? = some group → ∀ i ∈ group, owners[i]? = some k

namespace Grouped
variable {groups : List (List Nat)} {group owners : List Nat}

theorem nil : Grouped [] [] :=
  ⟨rfl, by simp⟩

theorem newGroup (h : Grouped groups owners) : Grouped (groups ++ [[]]) owners where
  flatten := by simp [h.flatten]
  owner {k group} hgroup i hi := by
    rw [List.getElem?_append] at hgroup
    split at hgroup
    · exact h.owner hgroup i hi
    · rw [List.getElem?_singleton, Option.ite_none_right_eq_some] at hgroup
      cases hgroup.2
      cases hi

/-- The next number goes to the last group. -/
theorem add (h : Grouped (groups ++ [group]) owners) :
    Grouped (groups ++ [group ++ [owners.length]]) (owners ++ [groups.length]) where
  flatten := by
    have hflatten := h.flatten
    rw [List.flatten_append, List.flatten_singleton] at hflatten
    rw [List.flatten_append, List.flatten_singleton, ← List.append_assoc, hflatten, List.length_append,
      List.length_singleton, List.range_succ]
  owner {k group'} hgroup i hi := by
    have hold : ∀ {k}, owners[i]? = some k → (owners ++ [groups.length])[i]? = some k := fun {k} howner => by
      rwa [List.getElem?_append_left (List.getElem?_eq_some_iff.1 howner).1]
    rw [List.getElem?_append] at hgroup
    split at hgroup
    · next hk => exact hold (h.owner (by rwa [List.getElem?_append_left hk]) i hi)
    · next hk =>
      rw [List.getElem?_singleton, Option.ite_none_right_eq_some] at hgroup
      obtain rfl : k = groups.length := by omega
      cases hgroup.2
      rcases List.mem_append.1 hi with hi | hi
      · exact hold (h.owner (List.getElem?_concat_length ..) i hi)
      · rw [List.mem_singleton.1 hi, List.getElem?_concat_length]

end Grouped

/-! ### Reading -/

/-- The nodes list the entries that have been read, and each entry knows its node. -/
def Draft.IsGrouped (d : Draft) : Prop :=
  Grouped (d.nodes.map Node.entries).reverse (d.entries.map Entry.node).reverse

variable {file : String} {l : Text.Line} {d d' : Draft}

theorem Draft.IsGrouped.adds (h : d.IsGrouped) (hadds : d.Adds file l d') : d'.IsGrouped := by
  obtain ⟨nodes, entries⟩ := d
  cases hadds with
  | node => simpa [IsGrouped, Node.named] using Grouped.newGroup h
  | entry _ hnodes =>
      cases hnodes
      rw [IsGrouped, List.map_cons, List.reverse_cons] at h
      simpa [IsGrouped, Entry.named] using h.add
  | ofNode _ hnodes _ hentries =>
      cases hnodes
      rwa [IsGrouped, List.map_cons, ← hentries] at h
  | ofEntry _ _ _ hentries _ hnode =>
      cases hentries
      simpa only [IsGrouped, List.map_cons, hnode] using h

/-- The nodes list the entries in order, and each entry knows its node. -/
def IsGrouped (c : Conversation) : Prop :=
  Grouped (c.nodes.map Node.entries) (c.entries.map Entry.node)

variable {c c₀ : Conversation} {name : String} {r : Text.Reader}

theorem isGrouped_of_parse (h : parse name r = .ok c) : c.IsGrouped := by
  obtain ⟨d, hgrouped, -, rfl⟩ := parse_induction (motive := fun _ d => d.IsGrouped) h Grouped.nil .adds
  simpa [IsGrouped, Draft.IsGrouped] using hgrouped

theorem nodes_ne_nil_of_parse (h : parse name r = .ok c) : c.nodes ≠ [] := by
  obtain ⟨d, -, hne, rfl⟩ := parse_induction (motive := fun _ _ => True) h trivial fun _ _ => trivial
  simpa using hne

/-- Every index that the conversation holds or looks up leads to a node or to an entry. -/
structure Linked (c : Conversation) : Prop where
  entries : c.nodes.flatMap Node.entries = List.range c.entries.length
  owner {k : Nat} {node : Node} : c.nodes[k]? = some node →
    ∀ i ∈ node.entries, ∃ e, c.entryAt? i = some e ∧ e.node = k
  current : ∀ k ∈ c.current, ∃ node, c.nodes[k]? = some node
  land {target : String} : ∀ k ∈ c.land? target, ∃ node, c.nodes[k]? = some node
  resolve {node : Node} {name : String} : node ∈ c.nodes → ∀ i ∈ c.resolve? node name, ∃ e, c.entryAt? i = some e

theorem exists_getElem?_of_lt {α : Type} {xs : List α} {i : Nat} (h : i < xs.length) : ∃ x, xs[i]? = some x :=
  ⟨xs[i], List.getElem?_eq_getElem h⟩

theorem IsGrouped.linked (h : c.IsGrouped) (hcurrent : c.InRange) : c.Linked := by
  have howner : ∀ {k : Nat} {node : Node}, c.nodes[k]? = some node →
      ∀ i ∈ node.entries, ∃ e, c.entryAt? i = some e ∧ e.node = k := by
    intro k node hnode i hi
    simpa [entryAt?] using h.owner (k := k) (by simp [hnode]) i hi
  refine ⟨?entries, howner, ?current, ?land, ?resolve⟩
  case entries => simpa [List.flatMap_def] using h.flatten
  case current => exact fun k hk => exists_getElem?_of_lt (hcurrent k hk)
  case land => exact fun k hk => exists_getElem?_of_lt (land?_lt hk)
  case resolve =>
    intro node name hnode i hi
    rcases Option.or_eq_some_iff.1 hi with hfound | ⟨-, hfound⟩
    · obtain ⟨k, hk⟩ := List.mem_iff_getElem?.1 hnode
      obtain ⟨e, he, -⟩ := howner hk i (List.mem_of_find?_eq_some hfound)
      exact ⟨e, he⟩
    · exact exists_getElem?_of_lt (List.findIdx?_eq_some_iff_findIdx_eq.1 hfound).1

/-! ### Playing -/

theorem inRange_reset (hne : c.nodes ≠ []) : c.reset.InRange := by
  rintro k ⟨⟩
  exact List.length_pos_iff.2 hne

theorem InRange.act {a : Act} (hne : c.nodes ≠ []) (h : c.InRange) : (c.act a).InRange := by
  cases a with
  | lines vars => exact (c.continues_currentLines vars).inRange h
  | pick name vars => exact (c.continues_pick name vars).inRange h
  | reset => exact inRange_reset hne
  | finish => rintro k ⟨⟩
  | restore s =>
      change (c.restore s).InRange
      unfold restore
      split
      · intro k hk
        simpa using (Option.mem_filter_iff.1 hk).2
      · exact inRange_reset hne

theorem nodes_eq_of_reset (h : c.reset = c₀.reset) : c.nodes = c₀.nodes := by
  change c.reset.nodes = c₀.reset.nodes
  rw [h]

theorem authored_eq_of_reset (h : c.reset = c₀.reset) :
    c.entries.map Entry.authored = c₀.entries.map Entry.authored := by
  change c.reset.entries = c₀.reset.entries
  rw [h]

theorem InRange.run {acts : List Act} (hne : c.nodes ≠ []) (h : c.InRange) : (c.run acts).InRange := by
  induction acts generalizing c with
  | nil => exact h
  | cons a acts ih => exact ih (nodes_eq_of_reset (c.reset_act a) ▸ hne) (h.act hne)

theorem IsGrouped.of_reset (h : c₀.IsGrouped) (hreset : c.reset = c₀.reset) : c.IsGrouped := by
  have howners : c.entries.map Entry.node = c₀.entries.map Entry.node := by
    simpa [Function.comp_def, Entry.authored] using congrArg (List.map Entry.node) (authored_eq_of_reset hreset)
  rw [IsGrouped, nodes_eq_of_reset hreset, howners]
  exact h

/-! ### Snapshots -/

/-- A snapshot brings everything back, and the index of the current node as far as 32 bits hold it. -/
theorem restore_snapshot (hreset : c.reset = c₀.reset) (hcurrent : c.InRange) :
    c₀.restore c.snapshot = { c with current := c.current.map (· % UInt32.size) } := by
  have hauthored := authored_eq_of_reset hreset
  have hlength : c.entries.length = c₀.entries.length := by
    simpa using congrArg List.length hauthored
  have hentries : (c₀.entries.zip (c.snapshot.visible.zip c.snapshot.destroyed)).map (fun p =>
      { p.1 with visible := p.2.1, destroyed := p.2.2 }) = c.entries := by
    refine List.ext_getElem (by simp [snapshot, hlength]) fun i _ hi => ?_
    have hi₀ : i < c₀.entries.length := hlength ▸ hi
    have he : c.entries[i].authored = c₀.entries[i].authored := by
      simpa [hi, hi₀] using congrArg (·[i]?) hauthored
    simpa [snapshot] using Entry.eq_of_authored he
  have hindex : (c.snapshot.current.map UInt32.toNat).filter (· < c₀.nodes.length) =
      c.current.map (· % UInt32.size) := by
    cases hk : c.current with
    | none => simp [snapshot, hk]
    | some k =>
        have hlt : k % UInt32.size < c₀.nodes.length :=
          Nat.lt_of_le_of_lt (Nat.mod_le k _) (nodes_eq_of_reset hreset ▸ hcurrent k hk)
        simpa [snapshot, hk] using hlt
  have hname : c.name = c₀.name := by
    change c.reset.name = c₀.reset.name
    rw [hreset]
  rw [restore_of_fits (by simp [snapshot, hlength]), hentries, hindex, ← hname, ← nodes_eq_of_reset hreset]

theorem map_mod_eq_iff {n : Nat} {o : Option Nat} (hn : 0 < n) : o.map (· % n) = o ↔ ∀ k ∈ o, k < n := by
  cases o with
  | none => simp
  | some k => simpa using Nat.mod_eq_iff_lt (Nat.ne_of_gt hn)

/-- Whatever is done with a conversation that was read, its indices stay good. What it is can be saved and
loaded into the text it was read from, as long as 32 bits hold the index of the current node. -/
theorem linked_run (hparse : parse name r = .ok c₀) (acts : List Act) :
    let c := c₀.run acts
    Outlines r.file r.after c₀ ∧ c.Linked ∧
      (c₀.restore c.snapshot = c ↔ ∀ k ∈ c.current, k < UInt32.size) := by
  intro c
  have hcurrent : c.InRange := (parse_ok hparse).2.run (nodes_ne_nil_of_parse hparse)
  have hreset : c.reset = c₀.reset := c₀.reset_run acts
  have hgrouped : c.IsGrouped := (isGrouped_of_parse hparse).of_reset hreset
  refine ⟨outlines_of_parse hparse, hgrouped.linked hcurrent, ?_⟩
  rw [restore_snapshot hreset hcurrent, ← map_mod_eq_iff (by decide)]
  constructor
  · exact congrArg Conversation.current
  · intro h
    rw [h]

/-- Two nodes, each of which leads to the other. -/
def parlour : List UInt8 :=
  "Node a\nGoto b\nFallthrough 0 b\nEntry x\nDestroy y\nGoto b\nEntry y\nNode b\nEntry z\nGoto a\n".toUTF8.toList

/-- One snapshot does not fit the entries, the other one has a node that does not exist. -/
def parlourActs : List Act :=
  [.lines .empty, .pick "x" .empty, .restore ⟨"parlour", some 0, [true], []⟩, .pick "x" .empty, .pick "z" .empty,
    .restore ⟨"parlour", some 2, [true, true, true], [true, false, false]⟩, .lines .empty, .reset, .pick "x" .empty]

theorem linked_run_parlour :
    ∃ c, parse "parlour" (.ofBytes "parlour.cnv" parlour) = .ok c ∧ (c.run parlourActs).current = some 1 ∧
      (c.run parlourActs).Linked ∧ c.restore (c.run parlourActs).snapshot = c.run parlourActs := by
  have hplayed : (parse "parlour" (.ofBytes "parlour.cnv" parlour)).toOption.any (fun c =>
      (c.run parlourActs).current == some 1) = true := by
    decide +kernel
  obtain ⟨c, hparse, hcurrent⟩ := exists_parse_of_any hplayed
  rw [beq_iff_eq] at hcurrent
  obtain ⟨-, hlinked, hrestore⟩ := linked_run hparse parlourActs
  refine ⟨c, hparse, hcurrent, hlinked, hrestore.2 fun k hk => ?_⟩
  rw [hcurrent] at hk
  cases hk
  decide

end Adventure.Conversation
