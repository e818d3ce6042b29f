import Adventure.Proofs.Conversation.Outline
import Adventure.Proofs.Text.Stops
/-! Conversations read line by line. The reader answers what the definition says, and where it fails it stands behind
the line that is wrong. -/
namespace Adventure

open Text (Line Reader)

variable {file text : String} {l : Line} {e : ParseError}

theorem Goto.ofLine_error (h : Goto.ofLine file l = .error e) : e.OfLine file l := by
  unfold ofLine at h
  dsimp only at h
  split at h <;> cases h
  exact .argumentCount 1 0

theorem Node.setFallthrough_error {node : Node} (h : node.setFallthrough file l = .error e) : e.OfLine file l := by
  unfold setFallthrough at h
  simp only [bind, Except.bind, pure, Except.pure] at h
  split at h
  · split at h <;> cases h
    next hread => exact Line.readNumber_error hread
  · split at h <;> cases h
    next hread => exact Line.readNumber_error hread
  · cases h; exact .argumentCount 2 _

theorem Entry.readReply_error (h : Entry.readReply file l = .error e) : e.OfLine file l := by
  unfold readReply at h
  split at h
  · cases h; exact .argumentCount 2 _
  · simp only [bind, Except.bind, pure, Except.pure] at h
    split at h <;> cases h
    next hread => exact Line.readNumber_error hread

theorem Entry.addLine_error {entry : Entry} (h : entry.addLine file l = .error e) : e.OfLine file l := by
  unfold addLine at h
  simp only [bind, Except.bind, pure, Except.pure] at h
  split at h
  · cases h
  · split at h
    · cases h
    · split at h
      · cases h
      · split at h
        · split at h <;> cases h
          next hreply => exact readReply_error hreply
        · split at h
          · cases h
          · split at h
            · cases h
            · split at h
              · cases h
              · split at h
                · split at h <;> cases h
                  next hgoto => exact Goto.ofLine_error hgoto
                · split at h <;> cases h
                  exact .unknownSection

namespace Conversation

theorem Draft.addLine_error {d : Draft} (h : Draft.addLine file d l = .error e) : e.OfLine file l := by
  unfold Draft.addLine at h
  simp only [bind, Except.bind, pure, Except.pure] at h
  split at h
  · split at h <;> cases h
    exact .argumentCount 1 0
  · split at h
    · cases h; exact .unexpected .node
    · split at h
      · split at h <;> cases h
        exact .argumentCount 1 0
      · split at h
        · split at h <;> cases h
          next hset => exact Node.setFallthrough_error hset
        · split at h
          · split at h <;> cases h
            next hgoto => exact Goto.ofLine_error hgoto
          · split at h
            · split at h <;> cases h
              next hadd => exact Entry.addLine_error hadd
            · cases h; exact .unexpected .entry

/-- Reads the lines to come one after the other. -/
def scanLines (d : Draft) (r : Reader) : Reply Draft :=
  match _ : r.next? with
  | none => .ok d r
  | some (l, r') =>
    match Draft.addLine r.file d l with
    | .error e => .stop e r'
    | .ok d => scanLines d r'
termination_by r.after.length
decreasing_by
  exact Reader.length_after_of_next? (by assumption)

def scan (name : String) (r : Reader) : Reply Conversation :=
  (scanLines { nodes := [], entries := [] } r).bind fun d r =>
    if d.nodes.isEmpty then .stop (.unexpectedEnd r.here .conversation) r
    else .ok { name, nodes := d.nodes.reverse, entries := d.entries.reverse, current := some 0 } r

theorem outcome_scanLines (d : Draft) (r : Reader) :
    (scanLines d r).outcome.map Prod.fst = r.after.foldlM (Draft.addLine r.file) d := by
  fun_induction scanLines d r with
  | case1 d r hr => rw [Reader.after_of_next?_eq_none hr]; rfl
  | case2 d r l r₁ hr e he =>
      rw [(Reader.eq_of_next? hr).2, List.foldlM_cons, he]
      rfl
  | case3 d r l r₁ hr d' hadd ih =>
      rw [(Reader.eq_of_next? hr).2, List.foldlM_cons, hadd, ih, (Reader.eq_of_next? hr).1]
      rfl

theorem Draft.Adds.nodes_ne_nil {d d' : Draft} (h : d.Adds file l d') : d'.nodes ≠ [] := by
  cases h with
  | node => exact List.cons_ne_nil _ _
  | entry => exact List.cons_ne_nil _ _
  | ofNode => exact List.cons_ne_nil _ _
  | ofEntry _ hnodes => exact hnodes ▸ List.cons_ne_nil _ _

theorem scanLines_nodes_ne_nil {d d' : Draft} {r r' : Reader} (h : scanLines d r = .ok d' r')
    (hd : d.nodes ≠ []) : d'.nodes ≠ [] := by
  fun_induction scanLines d r with
  | case1 => cases h; exact hd
  | case2 => cases h
  | case3 d r l r₁ hr d₁ hadd ih => exact ih h (Draft.addLine_ok hadd).nodes_ne_nil

/-- There is a node as soon as a line was read. -/
theorem reader_of_scanLines {d d' : Draft} {r r' : Reader} (h : scanLines d r = .ok d' r')
    (hnodes : d'.nodes = []) : r' = r := by
  unfold scanLines at h
  split at h
  · cases h; rfl
  · split at h
    · cases h
    · next hadd => exact absurd hnodes (scanLines_nodes_ne_nil h (Draft.addLine_ok hadd).nodes_ne_nil)

theorem outcome_scan (name : String) (r : Reader) : (scan name r).outcome.map Prod.fst = parse name r := by
  unfold scan parse
  rw [← outcome_scanLines]
  cases hscan : scanLines { nodes := [], entries := [] } r with
  | stop e r' => rfl
  | ok d r' =>
      simp only [Reply.bind]
      cases hnodes : d.nodes.isEmpty with
      | true =>
          rw [reader_of_scanLines hscan (List.isEmpty_iff.1 hnodes)]
          simp only [Reply.outcome, Except.map, bind, Except.bind, hnodes, if_true]
          rfl
      | false =>
          simp only [Reply.outcome, Except.map, bind, Except.bind, hnodes, Bool.false_eq_true, if_false]
          rfl

theorem leads_scanLines {d : Draft} {r : Reader} (hreads : Reader.Reads file text r) :
    (scanLines d r).Leads file text false fun r => r.after = [] := by
  fun_induction scanLines d r with
  | case1 d r hnext => exact ⟨hreads, Reader.after_of_next?_eq_none hnext⟩
  | case2 d r l r₁ hnext e he => exact Reply.leads_stop hreads hnext (Draft.addLine_error he)
  | case3 d r l r₁ hnext d' hadd ih => exact ih (hreads.next hnext)

theorem leads_scan {r : Reader} (name : String) (hreads : Reader.Reads file text r) :
    (scan name r).Leads file text false fun _ => True := by
  refine (leads_scanLines hreads).bind fun d r₁ hreads₁ hafter => ?_
  split
  · exact ⟨hreads₁, .ended hafter .conversation⟩
  · exact ⟨hreads₁, trivial⟩

end Conversation
end Adventure
