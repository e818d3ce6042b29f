import Adventure.Proofs.Conversation.Scan
import Adventure.Proofs.Room.Scan
/-! The places of errors. Where a definition text is malformed the error names a line that was read, but for containers
that fall short behind an object without a closing line. -/
namespace Adventure

open Script (Library)
open Text (Reader)

variable {file text : String} {id : UInt16} {r : Reader} {e : ParseError} {library : Library}

/-- What is read fails with the text, not with what is made of it. -/
theorem bind_eq_error_iff {α β : Type} {x : Except ParseError α} {f : α → Except ParseError β}
    (hf : ∀ a, f a ≠ .error e) : (x >>= f) = .error e ↔ x = .error e := by
  cases x with
  | error _ => exact ⟨fun h => by cases h; rfl, fun h => by cases h; rfl⟩
  | ok a => exact iff_of_false (hf a) (fun h => by cases h)

theorem Room.parse_eq_error_iff : Room.parse id r library = .error e ↔ RoomDef.empty.readSections r = .error e :=
  bind_eq_error_iff fun _ h => by cases h

theorem Container.parse_eq_error_iff :
    Container.parse r library = .error e ↔ ObjectDef.readContainer r = .error e :=
  bind_eq_error_iff fun _ h => by cases h

theorem Object.parse_eq_error_iff : Object.parse r library = .error e ↔ ObjectDef.read r = .error e :=
  bind_eq_error_iff fun _ h => by cases h

/-- Where a parser stops in a text the error names a line that was read, but not if a container is interrupted. Single
objects and conversations have no such place. -/
theorem errors_placed (hreads : Reader.Reads file text r) :
    (∀ id library, Room.parse id r library = .error e →
        ∃ stop, RoomDef.empty.scan r = .stop e stop ∧ (e.Placed stop ↔ ¬e.Interrupted stop)) ∧
      (∀ library, Container.parse r library = .error e →
        ∃ stop, ObjectDef.scanContainer r = .stop e stop ∧ (e.Placed stop ↔ ¬e.Interrupted stop)) ∧
      (∀ library, Object.parse r library = .error e → ∃ stop, ObjectDef.scan r = .stop e stop ∧ e.Placed stop) ∧
      ∀ name, Conversation.parse name r = .error e →
        ∃ stop, Conversation.scan name r = .stop e stop ∧ e.Placed stop := by
  refine ⟨fun id library h => ?_, fun library h => ?_, fun library h => ?_, fun name h => ?_⟩
  · obtain ⟨stop, hstop⟩ : ∃ stop, RoomDef.empty.scan r = .stop e stop :=
      Reply.eq_stop_of_map_outcome ((RoomDef.outcome_scan _ r).trans (Room.parse_eq_error_iff.1 h))
    obtain ⟨hstopReads, hstops⟩ := (RoomDef.leads_scan hreads).stopped hstop
    exact ⟨stop, hstop, hstops.placed_iff hstopReads⟩
  · obtain ⟨stop, hstop⟩ :=
      Reply.eq_stop_of_outcome ((ObjectDef.outcome_scanContainer r).trans (Container.parse_eq_error_iff.1 h))
    obtain ⟨hstopReads, hstops⟩ := (ObjectDef.leads_scanContainer hreads).stopped hstop
    exact ⟨stop, hstop, hstops.placed_iff hstopReads⟩
  · obtain ⟨stop, hstop⟩ := Reply.eq_stop_of_outcome ((ObjectDef.outcome_scan r).trans (Object.parse_eq_error_iff.1 h))
    obtain ⟨hstopReads, hstops⟩ := (ObjectDef.leads_scan hreads).stopped hstop
    exact ⟨stop, hstop, hstops.placed hstopReads⟩
  · obtain ⟨stop, hstop⟩ : ∃ stop, Conversation.scan name r = .stop e stop :=
      Reply.eq_stop_of_map_outcome ((Conversation.outcome_scan name r).trans h)
    obtain ⟨hstopReads, hstops⟩ := (Conversation.leads_scan name hreads).stopped hstop
    exact ⟨stop, hstop, hstops.placed hstopReads⟩

/-- The closing line of the only object is the last that is read. -/
def closet : String :=
  "Objects 2\n; empty\nObject Door\nEnd\nEnter"

def closetError : ParseError :=
  .shortContainer ⟨"0100.rom", 4⟩ 2 1

theorem errors_placed_closet : Room.parse 100 (.ofText "0100.rom" closet) default = .error closetError ∧
    ∃ stop, RoomDef.empty.scan (.ofText "0100.rom" closet) = .stop closetError stop ∧
      stop.before.map Text.Line.command = ["End", "Object", "Objects"] ∧ closetError.Placed stop := by
  have hparse : Room.parse 100 (.ofText "0100.rom" closet) default = .error closetError :=
    Room.parse_eq_error_iff.2 (by decide +kernel)
  obtain ⟨stop, hstop, hplaced⟩ := (errors_placed ⟨[], rfl⟩).1 100 default hparse
  have hscan : RoomDef.empty.scan (.ofText "0100.rom" closet) = .stop closetError
      ⟨"0100.rom", [⟨4, "End", ""⟩, ⟨3, "Object", "Door"⟩, ⟨1, "Objects", "2"⟩], [⟨5, "Enter", ""⟩], true⟩ := by
    decide +kernel
  cases hstop.symm.trans hscan
  refine ⟨hparse, _, hstop, rfl, hplaced.2 ?_⟩
  rintro ⟨_, _, _, -, -, -, hclosing⟩
  exact hclosing ⟨_, rfl, by decide⟩

/-- The only object is ended by the block after it. -/
def hall : String :=
  "Objects 2\nObject Door\nEnter\n"

def hallError : ParseError :=
  .shortContainer ⟨"0100.rom", 0⟩ 2 1

theorem hall_not_placed : Room.parse 100 (.ofText "0100.rom" hall) default = .error hallError ∧
    ∃ stop, RoomDef.empty.scan (.ofText "0100.rom" hall) = .stop hallError stop ∧
      stop.before.map Text.Line.number = [2, 1] ∧ ¬hallError.Placed stop := by
  have hscan : RoomDef.empty.scan (.ofText "0100.rom" hall) = .stop hallError
      ⟨"0100.rom", [⟨2, "Object", "Door"⟩, ⟨1, "Objects", "2"⟩], [⟨3, "Enter", ""⟩], false⟩ := by
    decide +kernel
  refine ⟨Room.parse_eq_error_iff.2 (by decide +kernel), _, hscan, rfl, fun h => ?_⟩
  obtain ⟨l, -, hpos, hplace⟩ := h (List.cons_ne_nil _ _)
  exact hpos.ne (congrArg Location.line hplace)

end Adventure
