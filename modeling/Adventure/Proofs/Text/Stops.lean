import Adventure.ParseError
import Adventure.Proofs.Text.Reader
/-! Where parsers stop. A parser that fails leaves its reader where it is. The error names the latest line that was
read; only where another line was put back behind it is its number lost. -/
namespace Adventure

open Text (Line Reader)

/-! ### Answers -/

/-- What a parser answers, and its reader as it stands then. -/
inductive Reply (α : Type) where
  | ok (value : α) (reader : Reader)
  | stop (error : ParseError) (reader : Reader)
  deriving DecidableEq, Repr

namespace Reply
variable {α : Type} {e : ParseError} {r : Reader} {reply : Reply α}

/-- Without the reader of a parser that has failed. -/
def outcome : Reply α → Except ParseError (α × Reader)
  | .ok value r => .ok (value, r)
  | .stop e _ => .error e

/-- Goes on with another parser, unless the first has failed. -/
def bind {β : Type} (reply : Reply α) (f : α → Reader → Reply β) : Reply β :=
  match reply with
  | .ok value r => f value r
  | .stop e r => .stop e r

/-- Goes on after what was read from a single line. -/
def ofExcept (result : Except ParseError α) (r : Reader) : Reply α :=
  match result with
  | .ok value => .ok value r
  | .error e => .stop e r

theorem outcome_bind {β : Type} (reply : Reply α) (f : α → Reader → Reply β) :
    (reply.bind f).outcome = reply.outcome.bind fun (value, r) => (f value r).outcome := by
  cases reply <;> rfl

theorem eq_stop_of_outcome (h : reply.outcome = .error e) : ∃ r, reply = .stop e r := by
  cases reply with
  | ok _ _ => cases h
  | stop _ r => cases h; exact ⟨r, rfl⟩

theorem eq_stop_of_map_outcome (h : reply.outcome.map Prod.fst = .error e) : ∃ r, reply = .stop e r := by
  cases reply with
  | ok _ _ => cases h
  | stop _ r => cases h; exact ⟨r, rfl⟩

end Reply

/-! ### Why parsers stop -/

/-- What may be wrong with a line. -/
inductive ParseError.OfLine (file : String) (l : Line) : ParseError → Prop where
  | missingCondition : OfLine file l (.missingCondition ⟨file, l.number⟩ l.command)
  | argumentCount (expected found : Nat) : OfLine file l (l.argumentCount file expected found)
  | unknownSection : OfLine file l (l.unknownSection file)
  | badNumber (value : String) : OfLine file l (.badNumber ⟨file, l.number⟩ l.command value)
  | unexpected (expected : Heading) : OfLine file l (l.unexpected file expected)

/-- The latest line is one that closes an object. -/
def Text.Reader.AtClosing (r : Reader) : Prop :=
  ∃ l ∈ r.before.head?, l.is "End" = true

/-- Why a parser stops, and where its reader stands then: a line is not as it should be, the text ends, or, where
objects are counted, another one was to come. -/
inductive Stops : Bool → ParseError → Reader → Prop where
  | line {counted : Bool} {e : ParseError} {r : Reader} {l : Line} (hlatest : l ∈ r.before.head?)
      (he : e.OfLine r.file l) : Stops counted e r
  | ended {counted : Bool} {r : Reader} (hafter : r.after = []) (within : Unfinished) :
      Stops counted (.unexpectedEnd r.here within) r
  | short {r : Reader} {parsed : Nat} (declared : Nat) (hbefore : r.before ≠ [])
      (hfresh : r.fresh = true ↔ parsed = 0 ∨ r.after = [] ∨ r.AtClosing) :
      Stops true (.shortContainer r.here declared parsed) r

/-- If a line was read, the error names one that was, which has a number. -/
def ParseError.Placed (e : ParseError) (r : Reader) : Prop :=
  r.before ≠ [] → ∃ l ∈ r.before, 0 < l.number ∧ e.place = ⟨r.file, l.number⟩

/-- A container falls short behind an object that was ended by the block after it, not by a closing line. -/
def ParseError.Interrupted (e : ParseError) (r : Reader) : Prop :=
  ∃ place declared parsed, e = .shortContainer place declared parsed ∧ 0 < parsed ∧ r.after ≠ [] ∧ ¬r.AtClosing

section Stops
variable {counted : Bool} {e : ParseError} {file text : String} {r : Reader} {l : Line}

theorem ParseError.OfLine.place_eq (h : e.OfLine file l) : e.place = ⟨file, l.number⟩ := by
  cases h <;> rfl

theorem ParseError.OfLine.not_interrupted (h : e.OfLine file l) : ¬e.Interrupted r := by
  rintro ⟨_, _, _, rfl, -⟩
  cases h

theorem ParseError.unexpectedEnd_not_interrupted (place : Location) (within : Unfinished) :
    ¬(ParseError.unexpectedEnd place within).Interrupted r := by
  rintro ⟨_, _, _, hshort, -⟩
  cases hshort

theorem Text.Line.readNumber_error {α : Type} {read : String → Except NumberError α} {value : String}
    (h : l.readNumber file read value = .error e) : e.OfLine file l := by
  unfold readNumber at h
  cases hread : read (trim value) with
  | ok _ => rw [hread] at h; cases h
  | error _ => rw [hread] at h; cases h; exact .badNumber value

theorem Text.Reader.exists_latest (h : r.before ≠ []) : ∃ l, l ∈ r.before.head? :=
  Option.isSome_iff_exists.1 (List.isSome_head?.2 h)

theorem Text.Reader.before_ne_nil (hlatest : l ∈ r.before.head?) : r.before ≠ [] :=
  List.ne_nil_of_mem (List.mem_of_mem_head? hlatest)

theorem Text.Reader.here_of_fresh (hlatest : l ∈ r.before.head?) (hfresh : r.fresh = true) :
    r.here = ⟨r.file, l.number⟩ := by
  obtain ⟨rest, hbefore⟩ := List.head?_eq_some_iff.1 hlatest
  rw [here, lineNumber, hbefore, hfresh]

theorem Text.Reader.here_of_not_fresh (hfresh : ¬r.fresh = true) : r.here = ⟨r.file, 0⟩ := by
  rw [Bool.not_eq_true] at hfresh
  rw [here, lineNumber, hfresh]

theorem placed_of_latest (hreads : Reader.Reads file text r) (hlatest : l ∈ r.before.head?)
    (hplace : e.place = ⟨r.file, l.number⟩) : e.Placed r :=
  have hmem := List.mem_of_mem_head? hlatest
  fun _ => ⟨l, hmem, hreads.number_pos l hmem, hplace⟩

/-- An error names a line that was read, unless its container is interrupted. -/
theorem Stops.placed_iff (h : Stops counted e r) (hreads : Reader.Reads file text r) : e.Placed r ↔ ¬e.Interrupted r := by
  cases h with
  | line hlatest he => exact iff_of_true (placed_of_latest hreads hlatest he.place_eq) he.not_interrupted
  | ended hafter within =>
      refine iff_of_true (fun hbefore => ?_) (ParseError.unexpectedEnd_not_interrupted _ within)
      obtain ⟨l, hlatest⟩ := Reader.exists_latest hbefore
      have hfresh := (hreads.fresh_of_after hafter).resolve_left hbefore
      exact placed_of_latest hreads hlatest (Reader.here_of_fresh hlatest hfresh) hbefore
  | @short r parsed declared hbefore hfresh =>
      by_cases hr : r.fresh = true
      · obtain ⟨l, hlatest⟩ := Reader.exists_latest hbefore
        refine iff_of_true (placed_of_latest hreads hlatest (Reader.here_of_fresh hlatest hr)) ?_
        rintro ⟨_, _, _, hshort, hparsed, hafter, hclosing⟩
        cases hshort
        rcases hfresh.1 hr with hzero | hend | hclosed
        · exact hparsed.ne' hzero
        · exact hafter hend
        · exact hclosing hclosed
      · refine iff_of_false (fun hplaced => ?_) (not_not.2 ?_)
        · obtain ⟨l, -, hpos, hplace⟩ := hplaced hbefore
          rw [ParseError.place, Reader.here_of_not_fresh hr, Location.mk.injEq] at hplace
          exact hpos.ne hplace.2
        · have hnone := not_or.1 (mt hfresh.2 hr)
          obtain ⟨hafter, hclosing⟩ := not_or.1 hnone.2
          exact ⟨_, _, _, rfl, Nat.pos_of_ne_zero hnone.1, hafter, hclosing⟩

theorem Stops.not_interrupted (h : Stops false e r) : ¬e.Interrupted r := by
  cases h with
  | line _ he => exact he.not_interrupted
  | ended _ within => exact ParseError.unexpectedEnd_not_interrupted _ within

theorem Stops.placed (h : Stops false e r) (hreads : Reader.Reads file text r) : e.Placed r :=
  (h.placed_iff hreads).2 h.not_interrupted

end Stops

/-! ### What a parser makes of its reader -/

/-- The reader is one of the text, in a state as said if the parser succeeds; else the parser has stopped there. -/
def Reply.Leads {α : Type} (file text : String) (counted : Bool) (P : Reader → Prop) : Reply α → Prop
  | .ok _ r => Reader.Reads file text r ∧ P r
  | .stop e r => Reader.Reads file text r ∧ Stops counted e r

/-- Within an object or a room a line was read that closes nothing, and it can be put back at the end of the text. -/
structure Text.Reader.Within (r : Reader) : Prop where
  latest : ∃ l ∈ r.before.head?, l.is "End" = false
  fresh : r.fresh = true ∨ r.after ≠ []

/-- Behind an object the latest line can be put back if it closes the object or nothing follows. -/
structure Text.Reader.Behind (r : Reader) : Prop where
  before : r.before ≠ []
  fresh : r.fresh = true ↔ r.after = [] ∨ r.AtClosing

section Leads
variable {counted : Bool} {file text : String} {r r' : Reader} {l : Line}

theorem Text.Reader.latest_of_next? (h : r.next? = some (l, r')) : l ∈ r'.before.head? ∧ r'.fresh = true := by
  unfold next? at h
  split at h
  · cases h
  · cases h; exact ⟨rfl, rfl⟩

theorem Text.Reader.after_ne_nil (h : r.next? = some (l, r')) : r.after ≠ [] := by
  rw [(eq_of_next? h).2]
  exact List.cons_ne_nil _ _

theorem Text.Reader.within_of_next? (h : r.next? = some (l, r')) (hl : l.is "End" = false) : r'.Within :=
  ⟨⟨l, (latest_of_next? h).1, hl⟩, .inl (latest_of_next? h).2⟩

theorem Text.Reader.Within.before_ne_nil (h : r.Within) : r.before ≠ [] :=
  have ⟨_, hlatest, _⟩ := h.latest
  Reader.before_ne_nil hlatest

theorem Text.Reader.Within.not_atClosing (h : r.Within) : ¬r.AtClosing := by
  rintro ⟨l, hl, hend⟩
  obtain ⟨l', hl', hnot⟩ := h.latest
  rw [Option.mem_unique hl hl', hnot] at hend
  cases hend

/-- An object ends with the text. -/
theorem Text.Reader.Within.behind_of_end (h : r.Within) (hafter : r.after = []) : r.Behind :=
  ⟨h.before_ne_nil, iff_of_true (h.fresh.resolve_right (not_not.2 hafter)) (.inl hafter)⟩

/-- An object ends before a line of another block. -/
theorem Text.Reader.Within.behind_putBack (h : r.Within) (hnext : r.next? = some (l, r')) : r'.putBack.Behind := by
  rw [putBack_next hnext]
  exact ⟨h.before_ne_nil, iff_of_false Bool.false_ne_true (not_or.2 ⟨after_ne_nil hnext, h.not_atClosing⟩)⟩

theorem Text.Reader.behind_of_closing (hnext : r.next? = some (l, r')) (hend : l.is "End" = true) : r'.Behind := by
  obtain ⟨hlatest, hfresh⟩ := latest_of_next? hnext
  exact ⟨before_ne_nil hlatest, iff_of_true hfresh (.inr ⟨l, hlatest, hend⟩)⟩

/-- A parser stops at a line that it has just read. -/
theorem Reply.leads_stop {α : Type} {e : ParseError} {P : Reader → Prop} (hreads : Reader.Reads file text r)
    (hnext : r.next? = some (l, r')) (he : e.OfLine r.file l) : (stop e r' : Reply α).Leads file text counted P :=
  ⟨hreads.next hnext, .line (Reader.latest_of_next? hnext).1 ((Reader.eq_of_next? hnext).1 ▸ he)⟩

theorem Reply.Leads.bind {α β : Type} {reply : Reply α} {f : α → Reader → Reply β} {P Q : Reader → Prop}
    (h : reply.Leads file text counted P)
    (hf : ∀ value r, Reader.Reads file text r → P r → (f value r).Leads file text counted Q) :
    (reply.bind f).Leads file text counted Q := by
  cases reply with
  | ok value r => exact hf value r h.1 h.2
  | stop e r => exact h

theorem Reply.Leads.stopped {α : Type} {reply : Reply α} {e : ParseError} {stop : Reader} {P : Reader → Prop}
    (h : reply.Leads file text counted P) (hstop : reply = .stop e stop) :
    Reader.Reads file text stop ∧ Stops counted e stop := by
  subst hstop
  exact h

end Leads
end Adventure
