import Mathlib.Data.List.Forall2
import Adventure.Proofs.Room.Parse
import Adventure.Proofs.Text.Number
import Adventure.Proofs.Text.Reader
/-! The grammar of chunks. A run of lines up to a block keyword is read just if it opens with a `Cond` line and all of
its `From` lines name a room; the `Cond` lines cut it into the texts of the chunks. -/
namespace Adventure

open Script (Chunk Action)
open Text (Line Reader)

/-! ### Lines -/

/-- The only argument of the line is the number of a room. -/
def Text.Line.NamesRoom (l : Line) (room : UInt16) : Prop :=
  ∃ word, l.arguments = [word] ∧ Text.Decimal (Text.trim word) room.toNat

/-- The line of a chunk is none of those that say when to run it. -/
def Text.Line.isAction (l : Line) : Bool :=
  !l.is "Cond2" && !l.is "From" && !l.is "Once"

/-- The room that the latest `From` line names. Without such a line it is 0, which stands for any room. -/
def ComesFrom (lines : List Line) (room : UInt16) : Prop :=
  match (lines.filter (·.is "From")).getLast? with
  | some l => l.NamesRoom room
  | none => room = 0

theorem Text.Line.readNumber_eq_ok_iff {l : Line} {file word : String} {room : UInt16} :
    l.readNumber file Text.readUInt16 word = .ok room ↔ Text.Decimal (Text.trim word) room.toNat := by
  rw [← Text.readUInt16_eq_ok_iff, readNumber, mapError_eq_ok_iff]

namespace Script

/-! ### Texts of chunks -/

/-- A `Cond` line with the lines up to the next one. -/
structure ChunkText where
  opening : Line
  body : List Line

namespace ChunkText

def lines (t : ChunkText) : List Line :=
  t.opening :: t.body

structure Proper (t : ChunkText) : Prop where
  opening : t.opening.is "Cond" = true
  body : ∀ l ∈ t.body, l.is "Cond" = false

/-- The chunk is as the lines say. -/
structure Defines (file : String) (t : ChunkText) (c : Chunk) : Prop where
  signature : c.signature = Location.text ⟨file, t.opening.number⟩
  conditions : c.conditions = t.opening.args :: (t.body.filter (·.is "Cond2")).map Line.args
  actions : c.actions = (t.body.filter Line.isAction).map fun l => ⟨.ofKeyword l.command, l.command, l.args⟩
  fromRoom : ComesFrom t.body c.fromRoom
  once : c.once = t.body.any (·.is "Once")
  position : c.position = 0
  retired : c.retired = false

theorem defines_opening (file : String) (l : Line) : Defines file ⟨l, []⟩ (Chunk.opening file l) where
  signature := rfl
  conditions := rfl
  actions := rfl
  fromRoom := rfl
  once := rfl
  position := rfl
  retired := rfl

end ChunkText

/-! ### One line -/

variable {file : String} {l : Line} {c d : Chunk} {t : ChunkText}

/-- What a line that opens no chunk adds to the latest one. -/
structure Chunk.Adds (l : Line) (c d : Chunk) : Prop where
  signature : d.signature = c.signature
  conditions : d.conditions = c.conditions ++ ([l].filter (·.is "Cond2")).map Line.args
  actions : d.actions = c.actions ++ ([l].filter Line.isAction).map fun l => .ofKeyword l.command l.args
  fromRoom : if l.is "From" then l.NamesRoom d.fromRoom else d.fromRoom = c.fromRoom
  once : d.once = (c.once || l.is "Once")
  position : d.position = c.position
  retired : d.retired = c.retired

theorem Chunk.addLine_adds (h : c.addLine file l = .ok d) : c.Adds l d := by
  unfold addLine at h
  simp only [bind, Except.bind, pure, Except.pure] at h
  split at h
  · next hcond2 =>
    cases h
    have hfrom : l.is "From" = false := Line.is_other_of_is hcond2 (by decide)
    have honce : l.is "Once" = false := Line.is_other_of_is hcond2 (by decide)
    constructor <;> simp [Line.isAction, hcond2, hfrom, honce]
  · next hcond2 =>
    rw [Bool.not_eq_true] at hcond2
    split at h
    · next hfrom =>
      have honce : l.is "Once" = false := Line.is_other_of_is hfrom (by decide)
      split at h
      · next word hword =>
        split at h <;> cases h
        next room hroom =>
          have hnames : l.NamesRoom room := ⟨word, hword, Line.readNumber_eq_ok_iff.1 hroom⟩
          constructor <;> simp [Line.isAction, hcond2, hfrom, honce, hnames]
      · cases h
    · next hfrom =>
      rw [Bool.not_eq_true] at hfrom
      split at h
      · next honce =>
        cases h
        constructor <;> simp [Line.isAction, hcond2, hfrom, honce]
      · next honce =>
        rw [Bool.not_eq_true] at honce
        cases h
        constructor <;> simp [Line.isAction, hcond2, hfrom, honce]

/-- Only a `From` line can be refused. -/
theorem Chunk.exists_addLine_iff (file : String) (c : Chunk) :
    (∃ d, c.addLine file l = .ok d) ↔ (l.is "From" = true → ∃ room, l.NamesRoom room) := by
  unfold addLine
  split
  · next hcond2 =>
    have hfrom : l.is "From" = false := Line.is_other_of_is hcond2 (by decide)
    simp [hfrom]
  · split
    · next hfrom =>
      simp only [bind, Except.bind, pure, Except.pure, hfrom, forall_const]
      split
      · next word hword =>
        have hnames : ∀ room, l.readNumber file Text.readUInt16 word = .ok room ↔ l.NamesRoom room := by
          intro room
          rw [Line.readNumber_eq_ok_iff]
          exact ⟨fun h => ⟨word, hword, h⟩, fun ⟨word', hword', h⟩ => by
            cases hword.symm.trans hword'
            exact h⟩
        simp only [← hnames]
        cases l.readNumber file Text.readUInt16 word <;> simp
      · next hnot =>
        refine iff_of_false (fun ⟨_, h⟩ => nomatch h) fun ⟨room, word, hword, _⟩ => hnot word hword
    · next hfrom => split <;> simp [hfrom]

theorem ChunkText.Defines.adds (h : t.Defines file c) (hargs : Text.trim l.args = l.args) (hadds : c.Adds l d) :
    ChunkText.Defines file { t with body := t.body ++ [l] } d where
  signature := hadds.signature.trans h.signature
  conditions := by
    rw [hadds.conditions, h.conditions, List.filter_append, List.map_append, List.cons_append]
  actions := by
    have haction : Action.ofKeyword l.command l.args = ⟨.ofKeyword l.command, l.command, l.args⟩ := by
      rw [Action.ofKeyword, hargs]
    rw [hadds.actions, h.actions, List.filter_append, List.map_append]
    by_cases his : l.isAction = true <;> simp [his, haction]
  fromRoom := by
    have hadded := hadds.fromRoom
    by_cases hfrom : l.is "From" = true
    · rw [if_pos hfrom] at hadded
      simpa [ComesFrom, hfrom] using hadded
    · rw [if_neg hfrom] at hadded
      simpa [ComesFrom, hfrom, hadded] using h.fromRoom
  once := by rw [hadds.once, h.once, List.any_append, List.any_cons, List.any_nil, Bool.or_false]
  position := hadds.position.trans h.position
  retired := hadds.retired.trans h.retired

/-! ### Many lines -/

/-- The lines are cut into texts that define the chunks. -/
def Spells (file : String) (lines : List Line) (cs : List Chunk) : Prop :=
  ∃ texts : List ChunkText, lines = texts.flatMap ChunkText.lines ∧ (∀ t ∈ texts, t.Proper) ∧
    List.Forall₂ (ChunkText.Defines file) texts cs

/-- The lines so far spell the chunks, the latest of which comes first. -/
def Gathers (file : String) (lines : List Line) (cs : List Chunk) : Prop :=
  ∃ texts : List ChunkText, lines = texts.reverse.flatMap ChunkText.lines ∧ (∀ t ∈ texts, t.Proper) ∧
    List.Forall₂ (ChunkText.Defines file) texts cs

variable {lines more : List Line} {cs ds : List Chunk}

theorem Gathers.nil (file : String) : Gathers file [] [] :=
  ⟨[], rfl, by simp, .nil⟩

theorem Gathers.spells (h : Gathers file lines cs) : Spells file lines cs.reverse := by
  obtain ⟨texts, hlines, hproper, hdefines⟩ := h
  exact ⟨texts.reverse, hlines, fun t ht => hproper t (List.mem_reverse.1 ht), List.rel_reverse hdefines⟩

/-- A `Cond` line opens the next chunk. -/
theorem Gathers.opening (h : Gathers file lines cs) (hline : l.is "Cond" = true) :
    Gathers file (lines ++ [l]) (Chunk.opening file l :: cs) := by
  obtain ⟨texts, rfl, hproper, hdefines⟩ := h
  refine ⟨⟨l, []⟩ :: texts, by simp [ChunkText.lines], ?_, .cons (ChunkText.defines_opening file l) hdefines⟩
  exact List.forall_mem_cons.2 ⟨⟨hline, by simp⟩, hproper⟩

/-- Every other line belongs to the latest chunk. -/
theorem Gathers.adds (h : Gathers file lines (c :: cs)) (hline : l.is "Cond" = false)
    (hargs : Text.trim l.args = l.args) (hadds : c.Adds l d) : Gathers file (lines ++ [l]) (d :: cs) := by
  obtain ⟨texts, rfl, hproper, hdefines⟩ := h
  obtain _ | @⟨t, _, texts, _, ht, hdefines⟩ := hdefines
  obtain ⟨⟨hopening, hbody⟩, hproper⟩ := List.forall_mem_cons.1 hproper
  refine ⟨{ t with body := t.body ++ [l] } :: texts, by simp [ChunkText.lines], ?_, .cons (ht.adds hargs hadds) hdefines⟩
  refine List.forall_mem_cons.2 ⟨⟨hopening, ?_⟩, hproper⟩
  exact List.forall_mem_append.2 ⟨hbody, List.forall_mem_singleton.2 hline⟩

theorem Gathers.collect (h : Gathers file lines cs) (hargs : Text.trim l.args = l.args)
    (hcollect : Chunk.collect file cs l = .ok ds) : Gathers file (lines ++ [l]) ds := by
  unfold Chunk.collect at hcollect
  split at hcollect
  · next hline =>
    cases hcollect
    exact h.opening hline
  · next hline =>
    rw [Bool.not_eq_true] at hline
    split at hcollect
    · cases hcollect
    · next c rest =>
      simp only [bind, Except.bind, pure, Except.pure] at hcollect
      split at hcollect <;> cases hcollect
      next d hadd => exact h.adds hline hargs (Chunk.addLine_adds hadd)

theorem Gathers.foldlM (h : Gathers file lines cs) (hargs : ∀ l ∈ more, Text.trim l.args = l.args)
    (hcollect : more.foldlM (Chunk.collect file) cs = .ok ds) : Gathers file (lines ++ more) ds := by
  induction more generalizing lines cs with
  | nil =>
      cases hcollect
      rwa [List.append_nil]
  | cons l more ih =>
      rw [List.forall_mem_cons] at hargs
      simp only [List.foldlM_cons, bind, Except.bind] at hcollect
      split at hcollect
      · cases hcollect
      · next hfirst =>
        have hrest := ih (h.collect hargs.1 hfirst) hargs.2 hcollect
        rwa [List.append_assoc, List.singleton_append] at hrest

theorem spells_of_ofLines (hargs : ∀ l ∈ lines, Text.trim l.args = l.args) (h : Chunk.ofLines file lines = .ok cs) :
    Spells file lines cs := by
  unfold Chunk.ofLines at h
  simp only [bind, Except.bind, pure, Except.pure] at h
  split at h <;> cases h
  next hcollect => exact ((Gathers.nil file).foldlM hargs hcollect).spells

/-! ### Runs that can be read -/

/-- The run of lines, if there is any, opens with a `Cond` line, and its `From` lines name rooms. -/
structure Readable (lines : List Line) : Prop where
  opening : ∀ l ∈ lines.head?, l.is "Cond" = true
  rooms : ∀ l ∈ lines, l.is "From" = true → ∃ room, l.NamesRoom room

/-- Once a chunk is open there is always one, and only a `From` line can be refused. -/
theorem exists_collect_cons_iff (file : String) (c : Chunk) (cs : List Chunk) :
    (∃ d ds, Chunk.collect file (c :: cs) l = .ok (d :: ds)) ↔ (l.is "From" = true → ∃ room, l.NamesRoom room) := by
  unfold Chunk.collect
  split
  · next hline =>
    have hfrom : l.is "From" = false := Line.is_other_of_is hline (by decide)
    simp [hfrom]
  · rw [← Chunk.exists_addLine_iff file c]
    cases hadd : c.addLine file l <;> simp [hadd, bind, Except.bind, pure, Except.pure]

theorem exists_cons_of_collect (h : Chunk.collect file (c :: cs) l = .ok ds) : ∃ d rest, ds = d :: rest := by
  unfold Chunk.collect at h
  split at h
  · cases h
    exact ⟨_, _, rfl⟩
  · obtain ⟨d, -, hd⟩ := bind_eq_ok_iff.1 h
    cases hd
    exact ⟨d, cs, rfl⟩

theorem exists_foldlM_collect_iff (c : Chunk) (cs : List Chunk) :
    (∃ ds, more.foldlM (Chunk.collect file) (c :: cs) = .ok ds) ↔
      ∀ l ∈ more, l.is "From" = true → ∃ room, l.NamesRoom room := by
  induction more generalizing c cs with
  | nil => exact iff_of_true ⟨_, rfl⟩ (by simp)
  | cons l more ih =>
      rw [List.forall_mem_cons, List.foldlM_cons, ← exists_collect_cons_iff file c cs]
      simp only [bind_eq_ok_iff]
      constructor
      · rintro ⟨ds, first, hfirst, hrest⟩
        obtain ⟨d, rest, rfl⟩ := exists_cons_of_collect hfirst
        exact ⟨⟨d, rest, hfirst⟩, (ih d rest).1 ⟨ds, hrest⟩⟩
      · rintro ⟨⟨d, rest, hfirst⟩, hmore⟩
        obtain ⟨ds, hrest⟩ := (ih d rest).2 hmore
        exact ⟨ds, d :: rest, hfirst, hrest⟩

theorem exists_ofLines_iff (file : String) : (∃ cs, Chunk.ofLines file lines = .ok cs) ↔ Readable lines := by
  have hcollected : (∃ cs, Chunk.ofLines file lines = .ok cs) ↔
      ∃ ds, lines.foldlM (Chunk.collect file) [] = .ok ds := by
    unfold Chunk.ofLines
    cases lines.foldlM (Chunk.collect file) [] <;> simp [bind, Except.bind, pure, Except.pure]
  rw [hcollected]
  cases lines with
  | nil => exact iff_of_true ⟨[], rfl⟩ ⟨by simp, by simp⟩
  | cons l more =>
      by_cases hline : l.is "Cond" = true
      · have hfrom : l.is "From" = false := Line.is_other_of_is hline (by decide)
        have hfirst : Chunk.collect file [] l = .ok [Chunk.opening file l] := by simp [Chunk.collect, hline]
        simp only [List.foldlM_cons, hfirst, bind, Except.bind]
        rw [exists_foldlM_collect_iff]
        refine ⟨fun hmore => ⟨by simp [hline], ?_⟩, fun hreadable => (List.forall_mem_cons.1 hreadable.rooms).2⟩
        exact List.forall_mem_cons.2 ⟨by simp [hfrom], hmore⟩
      · refine iff_of_false ?_ fun hreadable => hline (hreadable.opening l rfl)
        simp [List.foldlM_cons, Chunk.collect, hline, bind, Except.bind]

/-! ### Readers -/

/-- The lines to come, up to the first with a block keyword. -/
def block (r : Reader) : List Line :=
  r.after.takeWhile (!·.isBlockKeyword)

/-- The lines to come, from the first with a block keyword on. -/
def beyond (r : Reader) : List Line :=
  r.after.dropWhile (!·.isBlockKeyword)

theorem readChunks_eq_ok_iff {r r' : Reader} :
    readChunks r = .ok (cs, r') ↔
      Chunk.ofLines r.file (block r) = .ok cs ∧ r' = (r.takeWhile (!·.isBlockKeyword)).2 := by
  unfold readChunks block
  simp only [Reader.takeWhile, bind_eq_ok_iff, pure, Except.pure, Except.ok.injEq, Prod.mk.injEq]
  constructor
  · rintro ⟨ds, hds, rfl, rfl⟩
    exact ⟨hds, rfl⟩
  · rintro ⟨hcs, rfl⟩
    exact ⟨cs, hcs, rfl, rfl⟩

/-- Just the blocks that are readable are read, into the chunks that they spell, and the next block is left for its own
parser. -/
theorem readChunks_grammar {file text : String} {r : Reader} (hr : r.Reads file text) :
    ((∃ cs r', readChunks r = .ok (cs, r')) ↔ Readable (block r)) ∧
      ∀ cs r', readChunks r = .ok (cs, r') →
        Spells file (block r) cs ∧ r'.Reads file text ∧ r'.after = beyond r ∧
          r'.next?.map Prod.fst = (beyond r).head? := by
  simp only [readChunks_eq_ok_iff]
  refine ⟨?_, ?_⟩
  · rw [← exists_ofLines_iff r.file]
    simp
  · rintro cs r' ⟨hcs, rfl⟩
    have hargs : ∀ l ∈ block r, Text.trim l.args = l.args := fun l hl =>
      hr.trim_args l (List.takeWhile_sublist _ |>.subset hl)
    rw [hr.sameText.file] at hcs
    exact ⟨spells_of_ofLines hargs hcs, hr.takeWhile _, rfl, Reader.fst_next? _⟩

/-- A chunk with two conditions and two rooms, one without any actions, and the next block. -/
def gate : String :=
  "Go\ncond key\n Walk 3, 4 ; there\nFROM 7\ncond2  open\nOnce\n\nfrom +12\nCond shut\nLOOK"

def gateReader : Reader :=
  (Reader.ofText "0007.rom" gate).run [.next, .next, .putBack]

def gateChunks : List Chunk := [
  { signature := "0007.rom:2", conditions := ["key", "open"], actions := [⟨.ofKeyword "Walk", "Walk", "3, 4"⟩],
    position := 0, fromRoom := 12, once := true, retired := false },
  { signature := "0007.rom:9", conditions := ["shut"], actions := [],
    position := 0, fromRoom := 0, once := false, retired := false }]

theorem readChunks_grammar_gate :
    Readable (block gateReader) ∧ Spells "0007.rom" (block gateReader) gateChunks ∧
      ∃ r', readChunks gateReader = .ok (gateChunks, r') ∧ r'.next?.map Prod.fst = some ⟨10, "LOOK", ""⟩ := by
  have hreads : gateReader.Reads "0007.rom" gate := ⟨_, rfl⟩
  obtain ⟨haccepted, hread⟩ := readChunks_grammar hreads
  have hok : readChunks gateReader = .ok (gateChunks, (gateReader.takeWhile (!·.isBlockKeyword)).2) := by
    decide +kernel
  obtain ⟨hspells, -, -, hnext⟩ := hread _ _ hok
  refine ⟨haccepted.1 ⟨_, _, hok⟩, hspells, _, hok, ?_⟩
  rw [hnext]
  decide +kernel

end Script
end Adventure
