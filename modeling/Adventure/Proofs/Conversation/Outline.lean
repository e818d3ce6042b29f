import Mathlib.Data.List.Forall2
import Adventure.Proofs.Conversation
import Adventure.Proofs.Room.Parse
/-! What conversations are read from. The `Node` lines cut a text into the parts that define the nodes, and
the `Entry` lines cut these again. A `Goto` line belongs to the part it stands in: to the entry, or to the
node in front of its first entry. -/
namespace Adventure

open Text (Line)

/-- The line opens neither a node nor an entry. -/
structure Text.Line.IsPlain (l : Line) : Prop where
  not_node : l.is "Node" = false
  not_entry : l.is "Entry" = false

/-- An `Entry` line with the lines up to the next `Entry` or `Node` line. -/
structure EntryText where
  opening : Line
  body : List Line

/-- A `Node` line with the lines up to the next one: those in front of the first entry, and the entries. -/
structure NodeText where
  opening : Line
  front : List Line
  entries : List EntryText

/-- The gotos of lines, as they read. -/
def gotosOf (file : String) (lines : List Line) : List (Except ParseError Goto) :=
  (lines.filter (·.is "Goto")).map (Goto.ofLine file)

theorem gotosOf_append (file : String) (ls ms : List Line) :
    gotosOf file (ls ++ ms) = gotosOf file ls ++ gotosOf file ms := by
  rw [gotosOf, List.filter_append, List.map_append]
  rfl

theorem gotosOf_of_is_goto {file : String} {l : Line} (h : l.is "Goto" = true) :
    gotosOf file [l] = [Goto.ofLine file l] := by
  simp [gotosOf, h]

theorem gotosOf_of_is {file keyword : String} {l : Line} (h : l.is keyword = true)
    (hne : Text.same keyword "Goto" = false) : gotosOf file [l] = [] := by
  simp [gotosOf, Text.Line.is_eq_of_is h, hne]

namespace EntryText

def lines (t : EntryText) : List Line :=
  t.opening :: t.body

structure Proper (t : EntryText) : Prop where
  opening : t.opening.is "Entry" = true
  body : ∀ l ∈ t.body, l.IsPlain

theorem Proper.filter_node {t : EntryText} (h : t.Proper) : t.lines.filter (·.is "Node") = [] := by
  have hopening : t.opening.is "Node" = false := by
    rw [Line.is_eq_of_is h.opening]
    decide
  have hbody : t.body.filter (·.is "Node") = [] :=
    List.filter_eq_nil_iff.2 fun l hl => by simp [(h.body l hl).not_node]
  simp [lines, hopening, hbody]

theorem Proper.filter_entry {t : EntryText} (h : t.Proper) : t.lines.filter (·.is "Entry") = [t.opening] := by
  have hbody : t.body.filter (·.is "Entry") = [] :=
    List.filter_eq_nil_iff.2 fun l hl => by simp [(h.body l hl).not_entry]
  simp [lines, h.opening, hbody]

structure Defines (file : String) (t : EntryText) (e : Entry) : Prop where
  name : e.name = t.opening.args
  gotos : e.gotos.map .ok = gotosOf file t.body

end EntryText

namespace NodeText

def lines (t : NodeText) : List Line :=
  t.opening :: (t.front ++ t.entries.flatMap EntryText.lines)

structure Proper (t : NodeText) : Prop where
  opening : t.opening.is "Node" = true
  front : ∀ l ∈ t.front, l.IsPlain
  entries : ∀ e ∈ t.entries, e.Proper

theorem Proper.filter_node {t : NodeText} (h : t.Proper) : t.lines.filter (·.is "Node") = [t.opening] := by
  have hfront : t.front.filter (·.is "Node") = [] :=
    List.filter_eq_nil_iff.2 fun l hl => by simp [(h.front l hl).not_node]
  have hentries : t.entries.flatMap (·.lines.filter (·.is "Node")) = [] :=
    List.flatMap_eq_nil_iff.2 fun e he => (h.entries e he).filter_node
  simp [lines, h.opening, List.filter_append, List.filter_flatMap, hfront, hentries]

theorem Proper.filter_entry {t : NodeText} (h : t.Proper) :
    t.lines.filter (·.is "Entry") = t.entries.map EntryText.opening := by
  have hopening : t.opening.is "Entry" = false := by
    rw [Line.is_eq_of_is h.opening]
    decide
  have hfront : t.front.filter (·.is "Entry") = [] :=
    List.filter_eq_nil_iff.2 fun l hl => by simp [(h.front l hl).not_entry]
  have hentries : t.entries.flatMap (·.lines.filter (·.is "Entry")) = t.entries.flatMap fun e => [e.opening] :=
    List.flatMap_congr fun e he => (h.entries e he).filter_entry
  simp only [lines, hopening, List.filter_append, List.filter_flatMap, hfront, hentries, List.map_eq_flatMap,
    List.filter_cons_of_neg, List.nil_append, Bool.false_eq_true, not_false_eq_true]

structure Defines (file : String) (t : NodeText) (node : Node) : Prop where
  name : node.name = t.opening.args
  gotos : node.gotos.map .ok = gotosOf file t.front
  length_entries : node.entries.length = t.entries.length

end NodeText

/-! ### Lines -/

variable {file : String} {l : Line}

theorem Goto.map_ok_append {gotos : List Goto} {g : Goto} (hline : l.is "Goto" = true)
    (hg : Goto.ofLine file l = .ok g) : (gotos ++ [g]).map Except.ok = gotos.map .ok ++ gotosOf file [l] := by
  rw [List.map_append, gotosOf_of_is_goto hline, hg]
  rfl

theorem Entry.addLine_ok {e e' : Entry} (h : e.addLine file l = .ok e') :
    e'.name = e.name ∧ e'.node = e.node ∧ e'.gotos.map .ok = e.gotos.map .ok ++ gotosOf file [l] := by
  -- A line of another keyword leaves the gotos as they are.
  have hother : ∀ {keyword}, l.is keyword = true → Text.same keyword "Goto" = false →
      e.gotos.map .ok = e.gotos.map .ok ++ gotosOf file [l] := by
    intro keyword hline hne
    rw [gotosOf_of_is hline hne, List.append_nil]
  unfold addLine at h
  simp only [bind, Except.bind, pure, Except.pure] at h
  split at h
  · next hline => cases h; exact ⟨rfl, rfl, hother hline (by decide)⟩
  split at h
  · next hline => cases h; exact ⟨rfl, rfl, hother hline (by decide)⟩
  split at h
  · next hline => cases h; exact ⟨rfl, rfl, hother hline (by decide)⟩
  split at h
  · next hline => split at h <;> cases h; exact ⟨rfl, rfl, hother hline (by decide)⟩
  split at h
  · next hline => cases h; exact ⟨rfl, rfl, hother hline (by decide)⟩
  split at h
  · next hline => cases h; exact ⟨rfl, rfl, hother hline (by decide)⟩
  split at h
  · next hline => cases h; exact ⟨rfl, rfl, hother hline (by decide)⟩
  split at h
  · next hline => split at h <;> cases h; next hg => exact ⟨rfl, rfl, Goto.map_ok_append hline hg⟩
  split at h
  · next hline => cases h; exact ⟨rfl, rfl, hother hline (by decide)⟩
  · cases h

theorem Node.setFallthrough_ok {node node' : Node} (h : node.setFallthrough file l = .ok node') :
    node'.name = node.name ∧ node'.gotos = node.gotos ∧ node'.entries = node.entries := by
  unfold setFallthrough at h
  simp only [bind, Except.bind, pure, Except.pure] at h
  split at h
  · split at h <;> cases h; exact ⟨rfl, rfl, rfl⟩
  · split at h <;> cases h; exact ⟨rfl, rfl, rfl⟩
  · cases h

namespace Conversation

/-- What a line adds to the part of a conversation that has been read. -/
inductive Draft.Adds (file : String) (l : Line) (d : Draft) : Draft → Prop where
  | node (hline : l.is "Node" = true) : Adds file l d { d with nodes := .named l.args :: d.nodes }
  | entry {node : Node} {nodes : List Node} (hline : l.is "Entry" = true) (hnodes : d.nodes = node :: nodes) :
      Adds file l d {
        nodes := { node with entries := node.entries ++ [d.entries.length] } :: nodes
        entries := .named l.args nodes.length :: d.entries }
  | ofNode {node node' : Node} {nodes : List Node} (hline : l.IsPlain) (hnodes : d.nodes = node :: nodes)
      (hname : node'.name = node.name) (hentries : node'.entries = node.entries)
      (hgotos : node'.gotos.map .ok = node.gotos.map .ok ++ gotosOf file [l])
      (hfront : node.entries = [] ∨ gotosOf file [l] = []) : Adds file l d { d with nodes := node' :: nodes }
  | ofEntry {node : Node} {nodes : List Node} {e e' : Entry} {entries : List Entry} (hline : l.IsPlain)
      (hnodes : d.nodes = node :: nodes) (hne : node.entries ≠ []) (hentries : d.entries = e :: entries)
      (hname : e'.name = e.name) (hnode : e'.node = e.node)
      (hgotos : e'.gotos.map .ok = e.gotos.map .ok ++ gotosOf file [l]) :
      Adds file l d { d with entries := e' :: entries }

theorem Draft.addLine_ok {d d' : Draft} (h : Draft.addLine file d l = .ok d') : d.Adds file l d' := by
  unfold Draft.addLine at h
  simp only [bind, Except.bind, pure, Except.pure] at h
  split at h
  · next hline =>
    split at h <;> cases h
    exact .node hline
  · next hnode =>
    split at h
    · cases h
    · next node nodes hnodes =>
      split at h
      · next hline =>
        split at h <;> cases h
        exact .entry hline hnodes
      · next hentry =>
        have hline : l.IsPlain := ⟨by simpa using hnode, by simpa using hentry⟩
        split at h
        · next hfallthrough =>
          split at h <;> cases h
          next hset =>
            obtain ⟨hname, hgotos, hentries⟩ := Node.setFallthrough_ok hset
            have hnone : gotosOf file [l] = [] := gotosOf_of_is hfallthrough (by decide)
            exact .ofNode hline hnodes hname hentries (by rw [hnone, List.append_nil, hgotos]) (.inr hnone)
        · split at h
          · next hgoto =>
            obtain ⟨hgoto, hempty⟩ := Bool.and_eq_true_iff.1 hgoto
            split at h <;> cases h
            next hg => exact .ofNode hline hnodes rfl rfl (Goto.map_ok_append hgoto hg) (.inl (by simpa using hempty))
          · split at h
            · next hne hentries =>
              split at h <;> cases h
              next hadd =>
                obtain ⟨hname, hnode, hgotos⟩ := Entry.addLine_ok hadd
                exact .ofEntry hline hnodes (by simp [hne]) hentries hname hnode hgotos
            · cases h

theorem Draft.foldlM_induction {motive : List Line → Draft → Prop}
    (hstep : ∀ {lines l d d'}, motive lines d → d.Adds file l d' → motive (lines ++ [l]) d')
    {lines more : List Line} {d d' : Draft} (h : motive lines d)
    (hread : more.foldlM (Draft.addLine file) d = .ok d') : motive (lines ++ more) d' := by
  induction more generalizing lines d with
  | nil =>
      cases hread
      rwa [List.append_nil]
  | cons l more ih =>
      simp only [List.foldlM_cons, bind, Except.bind] at hread
      split at hread
      · cases hread
      · next hadd =>
        have hmore := ih (hstep h (Draft.addLine_ok hadd)) hread
        rwa [List.append_assoc, List.singleton_append] at hmore

/-- What every line keeps holds of the draft of the whole text. -/
theorem parse_induction {motive : List Line → Draft → Prop} {name : String} {r : Text.Reader} {c : Conversation}
    (h : parse name r = .ok c) (hnil : motive [] ⟨[], []⟩)
    (hstep : ∀ {lines l d d'}, motive lines d → d.Adds r.file l d' → motive (lines ++ [l]) d') :
    ∃ d, motive r.after d ∧ d.nodes ≠ [] ∧ c = ⟨name, d.nodes.reverse, d.entries.reverse, some 0⟩ := by
  unfold parse at h
  simp only [bind, Except.bind, pure, Except.pure] at h
  split at h
  · cases h
  · next d hread =>
    split at h
    · cases h
    · next hne =>
      cases h
      exact ⟨d, Draft.foldlM_induction hstep hnil hread, by simpa using hne, rfl⟩

/-! ### Cutting the lines -/

/-- The parts of the lines, the latest first. -/
structure Cuts (lines : List Line) (texts : List NodeText) : Prop where
  lines_eq : lines = texts.reverse.flatMap NodeText.lines
  proper : ∀ t ∈ texts, t.Proper

namespace Cuts
variable {lines : List Line} {t t' : NodeText} {texts : List NodeText} {before : List EntryText} {x : EntryText}

theorem nil : Cuts [] [] :=
  ⟨rfl, by simp⟩

theorem node (h : Cuts lines texts) (hline : l.is "Node" = true) : Cuts (lines ++ [l]) (⟨l, [], []⟩ :: texts) where
  lines_eq := by simp [h.lines_eq, NodeText.lines]
  proper := List.forall_mem_cons.2 ⟨⟨hline, by simp, by simp⟩, h.proper⟩

/-- The line becomes the last one of the latest part. -/
theorem replace (h : Cuts lines (t :: texts)) (hlines : t'.lines = t.lines ++ [l]) (hproper : t'.Proper) :
    Cuts (lines ++ [l]) (t' :: texts) where
  lines_eq := by simp [h.lines_eq, hlines]
  proper := List.forall_mem_cons.2 ⟨hproper, (List.forall_mem_cons.1 h.proper).2⟩

theorem entry (h : Cuts lines (t :: texts)) (hline : l.is "Entry" = true) :
    Cuts (lines ++ [l]) ({ t with entries := t.entries ++ [⟨l, []⟩] } :: texts) := by
  obtain ⟨hopening, hfront, hentries⟩ := h.proper t List.mem_cons_self
  refine h.replace (by simp [NodeText.lines, EntryText.lines]) ⟨hopening, hfront, ?_⟩
  simpa [or_imp, forall_and] using And.intro hentries ⟨hline, by simp⟩

theorem front (h : Cuts lines (t :: texts)) (hline : l.IsPlain) (hnone : t.entries = []) :
    Cuts (lines ++ [l]) ({ t with front := t.front ++ [l] } :: texts) := by
  obtain ⟨hopening, hfront, hentries⟩ := h.proper t List.mem_cons_self
  refine h.replace (by simp [NodeText.lines, hnone]) ⟨hopening, ?_, hentries⟩
  simpa [or_imp, forall_and] using And.intro hfront hline

theorem body (h : Cuts lines (t :: texts)) (hline : l.IsPlain) (hentries : t.entries = before ++ [x]) :
    Cuts (lines ++ [l]) ({ t with entries := before ++ [{ x with body := x.body ++ [l] }] } :: texts) := by
  obtain ⟨hopening, hfront, hproper⟩ := h.proper t List.mem_cons_self
  rw [hentries, List.forall_mem_append] at hproper
  obtain ⟨hbefore, hx⟩ := hproper
  obtain ⟨hxopening, hbody⟩ := hx x List.mem_cons_self
  refine h.replace (by simp [NodeText.lines, EntryText.lines, hentries]) ⟨hopening, hfront, ?_⟩
  rw [List.forall_mem_append, List.forall_mem_singleton]
  exact ⟨hbefore, hxopening, List.forall_mem_append.2 ⟨hbody, by simpa using hline⟩⟩

end Cuts

/-! ### Reading the lines -/

/-- The draft is what the lines define. -/
structure Drafts (file : String) (lines : List Line) (texts : List NodeText) (d : Draft) : Prop where
  cuts : Cuts lines texts
  nodes : List.Forall₂ (NodeText.Defines file) texts d.nodes
  entries : List.Forall₂ (EntryText.Defines file) (texts.flatMap (·.entries.reverse)) d.entries

variable {lines : List Line} {texts : List NodeText} {d d' : Draft}

/-- The line becomes the last one of the latest entry. -/
theorem Drafts.body {t : NodeText} {before : List EntryText} {x : EntryText} {node : Node} {nodes : List Node}
    {e e' : Entry} {entries : List Entry} (h : Drafts file lines (t :: texts) ⟨node :: nodes, e :: entries⟩)
    (hline : l.IsPlain) (hlast : t.entries = before ++ [x]) (hname : e'.name = e.name)
    (hgotos : e'.gotos.map .ok = e.gotos.map .ok ++ gotosOf file [l]) :
    ∃ texts', Drafts file (lines ++ [l]) texts' ⟨node :: nodes, e' :: entries⟩ := by
  obtain ⟨hcuts, hnodes, hentries⟩ := h
  obtain ⟨ht, hnodes⟩ := List.forall₂_cons.1 hnodes
  rw [List.flatMap_cons, hlast, List.reverse_append] at hentries
  obtain ⟨hx, hentries⟩ := List.forall₂_cons.1 hentries
  refine ⟨_, hcuts.body hline hlast, .cons ⟨ht.name, ht.gotos, ?_⟩ hnodes, ?_⟩
  · simpa [hlast] using ht.length_entries
  · rw [List.flatMap_cons, List.reverse_append]
    refine .cons ⟨hname.trans hx.name, ?_⟩ hentries
    rw [gotosOf_append, hgotos, hx.gotos]

theorem Drafts.adds (h : Drafts file lines texts d) (hadds : d.Adds file l d') :
    ∃ texts', Drafts file (lines ++ [l]) texts' d' := by
  obtain ⟨nodes, entries⟩ := d
  cases hadds with
  | node hline => exact ⟨_, h.cuts.node hline, .cons ⟨rfl, rfl, rfl⟩ h.nodes, by simpa using h.entries⟩
  | entry hline hd =>
      cases hd
      obtain ⟨hcuts, hnodes, hentries⟩ := h
      obtain _ | ⟨ht, hnodes⟩ := hnodes
      refine ⟨_, hcuts.entry hline, .cons ⟨ht.name, ht.gotos, ?_⟩ hnodes, ?_⟩
      · simp [ht.length_entries]
      · simpa using List.Forall₂.cons ⟨rfl, rfl⟩ hentries
  | @ofNode node node' nodes hline hd hname hsame hgotos hfront =>
      cases hd
      obtain ⟨hcuts, hnodes, hentries⟩ := h
      obtain _ | @⟨t, _, texts, _, ht, hnodes⟩ := hnodes
      have hcount : node'.entries.length = t.entries.length := hsame ▸ ht.length_entries
      rcases List.eq_nil_or_concat t.entries with hnone | ⟨before, x, hlast⟩
      · refine ⟨_, hcuts.front hline hnone, .cons ⟨hname.trans ht.name, ?_, hcount⟩ hnodes, hentries⟩
        rw [gotosOf_append, hgotos, ht.gotos]
      · -- The line is no goto, for a goto would belong to the latest entry.
        have hnil : gotosOf file [l] = [] := by
          refine hfront.resolve_left fun hempty => ?_
          rw [← hsame] at hempty
          simp [hempty, hlast] at hcount
        rw [hnil, List.append_nil] at hgotos
        have ht' : t.Defines file node' := ⟨hname.trans ht.name, hgotos.trans ht.gotos, hcount⟩
        cases entries with
        | nil => simp [hlast] at hentries
        | cons e entries =>
            exact Drafts.body ⟨hcuts, .cons ht' hnodes, hentries⟩ hline (hlast.trans (List.concat_eq_append)) rfl
              (by rw [hnil, List.append_nil])
  | @ofEntry node nodes e e' entries hline hd hne hd' hname hnode hgotos =>
      cases hd
      cases hd'
      obtain ⟨hcuts, hnodes, hentries⟩ := h
      obtain _ | @⟨t, _, texts, _, ht, hnodes⟩ := hnodes
      rcases List.eq_nil_or_concat t.entries with hnone | ⟨before, x, hlast⟩
      · have hlength := ht.length_entries
        rw [hnone, List.length_nil, List.length_eq_zero_iff] at hlength
        exact absurd hlength hne
      · exact Drafts.body ⟨hcuts, .cons ht hnodes, hentries⟩ hline (hlast.trans (List.concat_eq_append)) hname hgotos

/-- The conversation is what the lines of a file define. -/
structure Outlines (file : String) (lines : List Line) (c : Conversation) : Prop where
  nodes : c.nodes.map Node.name = (lines.filter (·.is "Node")).map Line.args
  entries : c.entries.map Entry.name = (lines.filter (·.is "Entry")).map Line.args
  /-- The lines are cut into parts that define the nodes and the entries, with the gotos that stand there. -/
  texts : ∃ texts : List NodeText, lines = texts.flatMap NodeText.lines ∧ (∀ t ∈ texts, t.Proper) ∧
    List.Forall₂ (NodeText.Defines file) texts c.nodes ∧
    List.Forall₂ (EntryText.Defines file) (texts.flatMap NodeText.entries) c.entries

theorem map_eq_of_forall₂ {α β γ : Type} {f : α → γ} {g : β → γ} {as : List α} {bs : List β}
    (h : List.Forall₂ (fun a b => g b = f a) as bs) : bs.map g = as.map f := by
  induction h with
  | nil => rfl
  | cons hhead _ ih => rw [List.map_cons, List.map_cons, hhead, ih]

theorem outlines_of_texts {c : Conversation} (hproper : ∀ t ∈ texts, t.Proper)
    (hnodes : List.Forall₂ (NodeText.Defines file) texts c.nodes)
    (hentries : List.Forall₂ (EntryText.Defines file) (texts.flatMap NodeText.entries) c.entries) :
    Outlines file (texts.flatMap NodeText.lines) c where
  nodes := by
    have hopenings : texts.flatMap (·.lines.filter (·.is "Node")) = texts.flatMap fun t => [t.opening] :=
      List.flatMap_congr fun t ht => (hproper t ht).filter_node
    rw [List.filter_flatMap, hopenings, ← List.map_eq_flatMap, List.map_map]
    exact map_eq_of_forall₂ (hnodes.imp fun _ _ h => h.name)
  entries := by
    have hopenings : texts.flatMap (·.lines.filter (·.is "Entry")) =
        texts.flatMap fun t => t.entries.map EntryText.opening :=
      List.flatMap_congr fun t ht => (hproper t ht).filter_entry
    rw [List.filter_flatMap, hopenings, ← List.map_flatMap, List.map_map]
    exact map_eq_of_forall₂ (hentries.imp fun _ _ h => h.name)
  texts := ⟨texts, rfl, hproper, hnodes, hentries⟩

theorem outlines_of_parse {name : String} {r : Text.Reader} {c : Conversation} (h : parse name r = .ok c) :
    Outlines r.file r.after c := by
  obtain ⟨d, ⟨texts, hcuts, hnodes, hentries⟩, -, rfl⟩ :=
    parse_induction (motive := fun lines d => ∃ texts, Drafts r.file lines texts d) h
      ⟨[], .nil, .nil, .nil⟩ fun ⟨_, hdrafts⟩ hadds => hdrafts.adds hadds
  rw [hcuts.lines_eq]
  refine outlines_of_texts (fun t ht => hcuts.proper t (List.mem_reverse.1 ht)) (List.rel_reverse hnodes) ?_
  have hreverse := List.rel_reverse hentries
  rwa [List.reverse_flatMap, show List.reverse ∘ (fun t : NodeText => t.entries.reverse) = NodeText.entries from
    funext fun t => List.reverse_reverse t.entries] at hreverse

end Conversation
end Adventure
