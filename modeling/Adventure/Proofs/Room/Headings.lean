import Mathlib.Algebra.GroupWithZero.Nat
import Mathlib.Data.List.Infix
import Mathlib.Data.List.TakeWhile
import Adventure.Proofs.Room.Parse
import Adventure.Proofs.Script.Deeds
/-! The headings of a room's text. Each `Objects` line is followed by just as many `Object` lines as it declares, and
each of these opens one object of the room; no other part of the text takes one of them. -/
namespace Adventure

open Script (Chunk ChunkId Library Progress Store)
open Text (Line Reader)

/-! ### Lines -/

def Text.Line.isHeading (l : Line) : Bool :=
  l.is "Object" || l.is "Objects"

/-- The number of objects that the heading of a container gives. -/
def Text.Line.declared? (l : Line) : Option Nat :=
  match l.arguments with
  | [count] => (Text.readUInt64 (Text.trim count)).toOption.map UInt64.toNat
  | _ => none

def objectLines (lines : List Line) : List Line :=
  lines.filter (·.is "Object")

def containerLines (lines : List Line) : List Line :=
  lines.filter (·.is "Objects")

/-- How many objects open before the next container. -/
def leading (lines : List Line) : Nat :=
  (objectLines (lines.takeWhile (!·.is "Objects"))).length

/-- Every container has as many objects as it declares, and there are no others. -/
structure Balanced (lines : List Line) : Prop where
  leading : leading lines = 0
  declared : ∀ heading rest, heading :: rest <:+ lines → heading.is "Objects" = true →
    heading.declared? = some (Adventure.leading rest)

variable {l heading : Line} {lines passed rest : List Line}

theorem Text.Line.isHeading_of_is {keyword : String} (h : l.is keyword = true) :
    l.isHeading = (Text.same keyword "Object" || Text.same keyword "Objects") := by
  rw [isHeading, is_eq_of_is h]

theorem Text.Line.isHeading_eq_false_iff : l.isHeading = false ↔ l.is "Object" = false ∧ l.is "Objects" = false := by
  rw [isHeading, Bool.or_eq_false_iff]

theorem Text.Line.isHeading_of_not_block (h : l.isBlockKeyword = false) : l.isHeading = false := by
  have hnot := List.any_eq_false.1 h
  simpa [isHeading_eq_false_iff] using And.intro (hnot "Object" (by decide)) (hnot "Objects" (by decide))

theorem Text.Line.isHeading_of_mem_takeWhile (h : l ∈ lines.takeWhile (!·.isBlockKeyword)) : l.isHeading = false :=
  isHeading_of_not_block (by simpa using List.mem_takeWhile_imp h)

theorem objectLines_append (lines rest : List Line) :
    objectLines (lines ++ rest) = objectLines lines ++ objectLines rest :=
  List.filter_append _ _

theorem objectLines_cons_of_object (h : l.is "Object" = true) (lines : List Line) :
    objectLines (l :: lines) = l :: objectLines lines :=
  List.filter_cons_of_pos (by simpa using h)

theorem objectLines_cons_of_not (h : l.is "Object" = false) (lines : List Line) :
    objectLines (l :: lines) = objectLines lines :=
  List.filter_cons_of_neg (by simp [h])

theorem objectLines_eq_nil (h : ∀ l ∈ passed, l.isHeading = false) : objectLines passed = [] :=
  List.filter_eq_nil_iff.2 fun l hl => by simp [(Line.isHeading_eq_false_iff.1 (h l hl)).1]

theorem leading_append (h : ∀ l ∈ passed, l.is "Objects" = false) :
    leading (passed ++ rest) = (objectLines passed).length + leading rest := by
  have hpassed : ∀ l ∈ passed, (!l.is "Objects") = true := by simpa using h
  rw [leading, List.takeWhile_append_of_pos hpassed, objectLines_append, List.length_append, leading]

theorem leading_cons_of_container (h : l.is "Objects" = true) (lines : List Line) : leading (l :: lines) = 0 := by
  simp [leading, objectLines, h]

/-- Where no container opens none is found. -/
theorem suffix_of_suffix_append (h : ∀ l ∈ passed, l.is "Objects" = false) (hheading : heading.is "Objects" = true)
    (hsuffix : heading :: lines <:+ passed ++ rest) : heading :: lines <:+ rest := by
  induction passed with
  | nil => exact hsuffix
  | cons l passed ih =>
      obtain ⟨hl, hpassed⟩ := List.forall_mem_cons.1 h
      rcases List.suffix_cons_iff.1 hsuffix with heq | hsuffix
      · cases heq
        rw [hl] at hheading
        cases hheading
      · exact ih hpassed hsuffix

namespace Balanced

theorem nil : Balanced [] where
  leading := rfl
  declared heading rest h := by simp at h

theorem append (h : Balanced rest) (hpassed : ∀ l ∈ passed, l.isHeading = false) : Balanced (passed ++ rest) := by
  have hcontainers : ∀ l ∈ passed, l.is "Objects" = false := fun l hl =>
    (Line.isHeading_eq_false_iff.1 (hpassed l hl)).2
  refine ⟨?_, fun heading tail hsuffix hheading => ?_⟩
  · rw [leading_append hcontainers, objectLines_eq_nil hpassed, h.leading, List.length_nil]
  · exact h.declared heading tail (suffix_of_suffix_append hcontainers hheading hsuffix) hheading

theorem container (h : Balanced rest) (hheading : heading.is "Objects" = true)
    (hpassed : ∀ l ∈ passed, l.is "Objects" = false) (hdeclared : heading.declared? = some (objectLines passed).length) :
    Balanced (heading :: (passed ++ rest)) := by
  refine ⟨leading_cons_of_container hheading _, fun other tail hsuffix hother => ?_⟩
  rcases List.suffix_cons_iff.1 hsuffix with heq | hsuffix
  · cases heq
    rw [hdeclared, leading_append hpassed, h.leading, Nat.add_zero]
  · exact h.declared other tail (suffix_of_suffix_append hpassed hother hsuffix) hother

/-- The declared numbers add up to the number of objects. -/
theorem exists_counts (h : Balanced lines) : ∃ counts : List Nat,
    (containerLines lines).map Line.declared? = counts.map some ∧ counts.sum = (objectLines lines).length := by
  have hsum : ∀ ls : List Line, ls <:+ lines → ∃ counts : List Nat,
      (containerLines ls).map Line.declared? = counts.map some ∧
        Adventure.leading ls + counts.sum = (objectLines ls).length := by
    intro ls
    induction ls with
    | nil => exact fun _ => ⟨[], rfl, rfl⟩
    | cons l ls ih =>
        intro hsuffix
        obtain ⟨counts, hcounts, htotal⟩ := ih ((List.suffix_cons l ls).trans hsuffix)
        by_cases hcontainer : l.is "Objects" = true
        · have hobject : l.is "Object" = false := Line.is_other_of_is hcontainer (by decide)
          refine ⟨Adventure.leading ls :: counts, ?_, ?_⟩
          · simpa [containerLines, hcontainer, h.declared l ls hsuffix hcontainer] using hcounts
          · rw [leading_cons_of_container hcontainer, List.sum_cons, htotal, Nat.zero_add,
              objectLines_cons_of_not hobject]
        · rw [Bool.not_eq_true] at hcontainer
          refine ⟨counts, by simpa [containerLines, hcontainer] using hcounts, ?_⟩
          have hfirst : ∀ other ∈ [l], other.is "Objects" = false := by simpa using hcontainer
          rw [← List.singleton_append, leading_append hfirst, objectLines_append, List.length_append, Nat.add_assoc,
            htotal]
  obtain ⟨counts, hcounts, htotal⟩ := hsum lines List.suffix_rfl
  rw [h.leading, Nat.zero_add] at htotal
  exact ⟨counts, hcounts, htotal⟩

end Balanced

/-! ### Objects -/

namespace ObjectDef

/-- The body of an object ends before the next heading. -/
theorem readBody_passed {d d' : ObjectDef} {r r' : Reader} (h : readBody d r = .ok (d', r')) :
    d'.name = d.name ∧ ∃ passed, r.after = passed ++ r'.after ∧ ∀ l ∈ passed, l.isHeading = false := by
  fun_induction readBody d r with
  | case1 => cases h; exact ⟨rfl, [], rfl, by simp⟩
  | case2 => cases h
  | case3 d r l r₁ hr hrect rect _ ih =>
      obtain ⟨hname, passed, hafter, hpassed⟩ := ih h
      have hhead : l.isHeading = false := by rw [Line.isHeading_of_is hrect]; decide
      refine ⟨hname, l :: passed, ?_, List.forall_mem_cons.2 ⟨hhead, hpassed⟩⟩
      rw [(Reader.eq_of_next? hr).2, hafter, List.cons_append]
  | case4 => cases h
  | case5 d r l r₁ hr _ verb hverb chunks r₂ hc ih =>
      obtain ⟨hname, passed, hafter, hpassed⟩ := ih h
      have hhead : l.isHeading = false := by
        rw [Line.isHeading_of_is (Line.is_of_verb hverb)]
        cases verb <;> decide
      have hchunks : ∀ other ∈ r₁.after.takeWhile (!·.isBlockKeyword), other.isHeading = false := fun _ =>
        Line.isHeading_of_mem_takeWhile
      refine ⟨hname, l :: (r₁.after.takeWhile (!·.isBlockKeyword) ++ passed), ?_,
        List.forall_mem_cons.2 ⟨hhead, List.forall_mem_append.2 ⟨hchunks, hpassed⟩⟩⟩
      rw [(Reader.eq_of_next? hr).2, List.cons_append, List.append_assoc, ← hafter, (Script.readChunks_ok hc).2.1,
        List.takeWhile_append_dropWhile]
  | case6 d r l r₁ hr _ _ hend =>
      cases h
      have hhead : l.isHeading = false := by rw [Line.isHeading_of_is hend]; decide
      exact ⟨rfl, [l], (Reader.eq_of_next? hr).2, by simpa using hhead⟩
  | case7 d r l r₁ hr => cases h; exact ⟨rfl, [], (Reader.putBack_of_next? hr).2.symm, by simp⟩
  | case8 => cases h

/-- One object takes one heading. -/
theorem read_passed {d : ObjectDef} {r r' : Reader} (h : read r = .ok (d, r')) :
    ∃ passed, r.after = passed ++ r'.after ∧ (∀ l ∈ passed, l.is "Objects" = false) ∧
      (objectLines passed).map Line.args = [d.name] := by
  unfold read at h
  split at h
  · cases h
  · next head r₁ hr =>
    split at h
    · cases h
    · next hobject =>
      rw [Bool.not_eq_true, Bool.not_eq_false'] at hobject
      split at h
      · cases h
      · obtain ⟨hname, passed, hafter, hpassed⟩ := readBody_passed h
        have hhead : head.is "Objects" = false := Line.is_other_of_is hobject (by decide)
        refine ⟨head :: passed, by rw [(Reader.eq_of_next? hr).2, hafter, List.cons_append], ?_, ?_⟩
        · exact List.forall_mem_cons.2 ⟨hhead, fun l hl => (Line.isHeading_eq_false_iff.1 (hpassed l hl)).2⟩
        · rw [hname, objectLines_cons_of_object hobject, objectLines_eq_nil hpassed]
          rfl

theorem readAll_passed {declared missing : Nat} {ds : List ObjectDef} {r r' : Reader}
    (h : readAll declared missing r = .ok (ds, r')) :
    ∃ passed, r.after = passed ++ r'.after ∧ (∀ l ∈ passed, l.is "Objects" = false) ∧
      (objectLines passed).map Line.args = ds.map name ∧ ds.length = missing := by
  induction missing generalizing r ds with
  | zero => cases h; exact ⟨[], rfl, by simp, rfl, rfl⟩
  | succ missing ih =>
    unfold readAll at h
    split at h
    · simp only [bind, Except.bind, pure, Except.pure] at h
      split at h
      · cases h
      · next hd =>
        split at h <;> cases h
        next hds =>
          obtain ⟨first, hafter, hfirst, hname⟩ := read_passed hd
          obtain ⟨passed, hafter', hpassed, hnames, hlength⟩ := ih hds
          refine ⟨first ++ passed, by rw [hafter, hafter', List.append_assoc],
            List.forall_mem_append.2 ⟨hfirst, hpassed⟩, ?_, by rw [List.length_cons, hlength]⟩
          rw [objectLines_append, List.map_append, hname, hnames]
          rfl
    · cases h

/-- A container takes its heading and those of as many objects as it declares. -/
theorem readContainer_passed {ds : List ObjectDef} {r r' : Reader} (h : readContainer r = .ok (ds, r')) :
    ∃ heading passed, r.after = heading :: (passed ++ r'.after) ∧ heading.is "Objects" = true ∧
      heading.declared? = some (objectLines passed).length ∧ (∀ l ∈ passed, l.is "Objects" = false) ∧
      (objectLines passed).map Line.args = ds.map name := by
  unfold readContainer at h
  split at h
  · cases h
  · next head r₁ hr =>
    split at h
    · cases h
    · next hobjects =>
      rw [Bool.not_eq_true, Bool.not_eq_false'] at hobjects
      split at h
      · next count hcount =>
        simp only [bind, Except.bind] at h
        split at h
        · cases h
        · next declared hdeclared =>
          obtain ⟨passed, hafter, hpassed, hnames, hlength⟩ := readAll_passed h
          refine ⟨head, passed, by rw [(Reader.eq_of_next? hr).2, hafter], hobjects, ?_, hpassed, hnames⟩
          have hobjectLines : (objectLines passed).length = declared.toNat := by
            simpa [hlength] using congrArg List.length hnames
          rw [hobjectLines, Line.declared?, hcount]
          unfold Line.readNumber at hdeclared
          cases hread : Text.readUInt64 (Text.trim count) with
          | error e => rw [hread] at hdeclared; cases hdeclared
          | ok n =>
              rw [hread] at hdeclared
              cases hdeclared
              simp [hread, Except.toOption]
      · cases h

end ObjectDef

/-! ### Rooms -/

namespace RoomDef

/-- The objects that a definition gains from lines open in these, and are as many as declared. -/
structure Opens (d : RoomDef) (lines : List Line) (d' : RoomDef) : Prop where
  balanced : Balanced lines
  names : d'.objects.map ObjectDef.name = d.objects.map ObjectDef.name ++ (objectLines lines).map Line.args

variable {d d₁ d' : RoomDef} {r : Reader}

theorem Opens.append (h : d₁.Opens rest d') (hobjects : d₁.objects = d.objects)
    (hpassed : ∀ l ∈ passed, l.isHeading = false) : d.Opens (passed ++ rest) d' where
  balanced := h.balanced.append hpassed
  names := by rw [h.names, hobjects, objectLines_append, objectLines_eq_nil hpassed, List.nil_append]

theorem Opens.cons (h : d₁.Opens rest d') (hobjects : d₁.objects = d.objects) (hl : l.isHeading = false) :
    d.Opens (l :: rest) d' :=
  List.singleton_append ▸ h.append hobjects (List.forall_mem_singleton.2 hl)

/-- No section but a container takes a heading. -/
theorem readSections_opens (h : d.readSections r = .ok d') : d.Opens r.after d' := by
  fun_induction readSections d r with
  | case1 d r hr =>
      cases h
      rw [Reader.after_of_next?_eq_none hr]
      exact ⟨.nil, (List.append_nil _).symm⟩
  | case2 d r l r₁ hr hlocal ih =>
      rw [(Reader.eq_of_next? hr).2]
      exact (ih h).cons rfl (by rw [Line.isHeading_of_is hlocal]; decide)
  | case3 => cases h
  | case4 d r l r₁ hr _ hrandom random _ ih =>
      rw [(Reader.eq_of_next? hr).2]
      exact (ih h).cons rfl (by rw [Line.isHeading_of_is hrandom]; decide)
  | case5 => cases h
  | case6 d r l r₁ hr _ _ hmap name _ ih =>
      rw [(Reader.eq_of_next? hr).2]
      exact (ih h).cons rfl (by rw [Line.isHeading_of_is hmap]; decide)
  | case7 => cases h
  | case8 d r l r₁ hr _ _ _ _ objects r₂ hobjects ih =>
      obtain ⟨heading, passed, hafter, hheading, hdeclared, hpassed, hnames⟩ := ObjectDef.readContainer_passed hobjects
      have hobject : heading.is "Object" = false := Line.is_other_of_is hheading (by decide)
      have hrest := ih h
      rw [hafter]
      refine ⟨hrest.balanced.container hheading hpassed hdeclared, ?_⟩
      rw [hrest.names, objectLines_cons_of_not hobject, objectLines_append, List.map_append, List.map_append, hnames,
        List.append_assoc]
  | case9 => cases h
  | case10 d r l r₁ hr _ _ _ _ henter chunks r₂ hchunks ih =>
      have hrest := ih h
      rw [(Script.readChunks_ok hchunks).2.1] at hrest
      rw [(Reader.eq_of_next? hr).2, ← List.takeWhile_append_dropWhile (p := (!·.isBlockKeyword)) (l := r₁.after)]
      exact Opens.cons (hrest.append rfl fun _ => Line.isHeading_of_mem_takeWhile) rfl
        (by rw [Line.isHeading_of_is henter]; decide)
  | case11 => cases h

end RoomDef

theorem Container.names_install (ds : List ObjectDef) (l : Library) :
    (install ds l).1.objects.map Object.name = ds.map ObjectDef.name := by
  induction ds generalizing l with
  | nil => rfl
  | cons d ds ih =>
      simp only [install, List.map_cons, ih]
      rfl

namespace Room
variable {id : UInt16} {r : Reader} {l l' : Library} {room : Room}

theorem parse_eq_ok_iff : parse id r l = .ok (room, l') ↔
    ∃ d, RoomDef.empty.readSections r = .ok d ∧ install id d l = (room, l') := by
  unfold parse
  cases RoomDef.empty.readSections r <;> simp [bind, Except.bind, pure, Except.pure]

/-- Where no signature is marked as removed the library takes every chunk of the text, each once. -/
theorem signatures_install {file text : String} {d : RoomDef} (hs : l.store.Sound)
    (h : RoomDef.empty.readSections (.ofText file text) = .ok d) (hinstall : install id d l = (room, l'))
    (hregister : ∀ n, l.register.get? (Location.text ⟨file, n⟩) ≠ some .removed) :
    (room.chunkIds.map l'.store.signature?).Perm ((openings file (Text.lines text)).map some) := by
  obtain ⟨cs, r', hcs, hend, hlist⟩ := RoomDef.readSections_yields h
  have htext := hcs.fromText.perm hlist.symm
  have hall : d.chunkList.filter (fun c => l.register.get? c.signature ≠ some .removed) = d.chunkList := by
    refine List.filter_eq_self.2 fun c hc => ?_
    obtain ⟨line, hline⟩ := htext.places c hc
    simpa [hline] using hregister line
  have htaken : room.chunkIds.map l'.store.signature? = d.chunkList.map fun c => some c.signature := by
    have hsigs := Library.signatures_adoptAll hs d.chunkList
    rwa [hall, ← chunkIds_install id, ← library_install id, hinstall] at hsigs
  have hopenings : (openings file (Text.lines text)).Perm (cs.map Chunk.signature) := by
    have hall := hcs.openings
    rwa [hend, show openings (Reader.ofText file text).file [] = [] from rfl, List.append_nil] at hall
  have hmap : (d.chunkList.map fun c => some c.signature) = (d.chunkList.map Chunk.signature).map some := by
    rw [List.map_map]
    rfl
  rw [htaken, hmap]
  exact ((hlist.map Chunk.signature).trans hopenings.symm).map some

theorem stored_install {d : RoomDef} (hs : l.store.Sound) (hinstall : install id d l = (room, l')) :
    l'.store.Sound ∧ ∀ id ∈ room.chunkIds, ∃ sig, l'.store.signature? id = some sig := by
  have hgrows := Library.adoptAll_grows d.chunkList hs
  rw [← chunkIds_install id, ← library_install id, hinstall] at hgrows
  refine ⟨hgrows.sound, fun id hid => ?_⟩
  obtain ⟨c, hc⟩ := hgrows.stored id hid
  exact ⟨c.signature, by rw [Store.signature?, hc, Option.map_some]⟩

/-- A room has the objects of its text in their order, and takes each of its chunks once. -/
theorem parse_complete {file text : String} {acts : List Store.Act} {register : Table Progress}
    (h : parse id (.ofText file text) ⟨Store.run acts, register⟩ = .ok (room, l')) :
    room.objects.objects.map Object.name = (objectLines (Text.lines text)).map Line.args ∧
      Balanced (Text.lines text) ∧
      (∃ counts : List Nat, (containerLines (Text.lines text)).map Line.declared? = counts.map some ∧
        counts.sum = room.objects.objects.length) ∧
      (openings file (Text.lines text)).Nodup ∧
      ((∀ n, register.get? (Location.text ⟨file, n⟩) ≠ some .removed) →
        ∀ later : List Library.Act, (∀ id ∈ room.chunkIds, .release id ∉ later) →
          (room.chunkIds.map (l'.run later).store.signature?).Perm ((openings file (Text.lines text)).map some)) := by
  obtain ⟨d, hread, hinstall⟩ := parse_eq_ok_iff.1 h
  obtain ⟨hbalanced, hnames⟩ := RoomDef.readSections_opens hread
  have hobjects : room.objects.objects.map Object.name = (objectLines (Text.lines text)).map Line.args := by
    have hroom : room.objects = (Container.install d.objects ⟨Store.run acts, register⟩).1 :=
      (congrArg (fun p => p.1.objects) hinstall).symm
    rw [hroom, Container.names_install, hnames]
    rfl
  obtain ⟨counts, hcounts, hsum⟩ := hbalanced.exists_counts
  have hlength : room.objects.objects.length = (objectLines (Text.lines text)).length := by
    simpa using congrArg List.length hobjects
  refine ⟨hobjects, hbalanced, ⟨counts, hcounts, hsum.trans hlength.symm⟩,
    openings_nodup file (Text.lines_ascending text), fun hregister later hlater => ?_⟩
  obtain ⟨hs, hstored⟩ := stored_install (Store.sound_run acts) hinstall
  have hkept : room.chunkIds.map (l'.run later).store.signature? = room.chunkIds.map l'.store.signature? := by
    refine List.map_congr_left fun id hid => ?_
    obtain ⟨sig, hsig⟩ := hstored id hid
    rw [hsig, Library.signature?_run hs hsig (hlater id hid)]
  rw [hkept]
  exact signatures_install (Store.sound_run acts) hread hinstall hregister

/-- Two containers with an entrance between them. -/
def cellar : String :=
  "objects 1\nOBJECT Trap door\nLook\nCond\nSay Dark.\nGo\nCond open\nFrom 3\nEnd\nEnter\ncond\nOnce\n" ++
    "Objects 2\nObject Rope\nUse\nCond knife\nObject Box\nGo\nCond"

def cellarLines : List Line := [
  ⟨1, "objects", "1"⟩, ⟨2, "OBJECT", "Trap door"⟩, ⟨3, "Look", ""⟩, ⟨4, "Cond", ""⟩, ⟨5, "Say", "Dark."⟩, ⟨6, "Go", ""⟩,
  ⟨7, "Cond", "open"⟩, ⟨8, "From", "3"⟩, ⟨9, "End", ""⟩, ⟨10, "Enter", ""⟩, ⟨11, "cond", ""⟩, ⟨12, "Once", ""⟩,
  ⟨13, "Objects", "2"⟩, ⟨14, "Object", "Rope"⟩, ⟨15, "Use", ""⟩, ⟨16, "Cond", "knife"⟩, ⟨17, "Object", "Box"⟩,
  ⟨18, "Go", ""⟩, ⟨19, "Cond", ""⟩]

/-- The first chunk gets a slot that was used before. -/
def beforeCellar : List Store.Act :=
  [.insert (.ofParts "0006.rom:1" [] []), .remove ⟨0, 0⟩]

def inCellar : List Library.Act :=
  [.deed ⟨0, 1⟩ .retire, .adopt (.ofParts "0007.rom:7" [] []), .restore [("0007.rom:11", 2)], .deed ⟨1, 0⟩ .skipToEnd]

theorem parse_complete_cellar : ∃ room l', parse 7 (.ofText "0007.rom" cellar)
      ⟨Store.run beforeCellar, Table.insert ∅ "0007.rom:4" (.cached 1)⟩ = .ok (room, l') ∧
    room.objects.objects.map Object.name = ["Trap door", "Rope", "Box"] ∧
    (room.chunkIds.map (l'.run inCellar).store.signature?).Perm
      [some "0007.rom:4", some "0007.rom:7", some "0007.rom:11", some "0007.rom:16", some "0007.rom:19"] := by
  have hlines : Text.lines cellar = cellarLines := by decide +kernel
  have hread : ∃ d, RoomDef.empty.readSections (.ofText "0007.rom" cellar) = .ok d := by
    rw [Reader.ofText, hlines]
    cases hd : RoomDef.empty.readSections ⟨"0007.rom", [], cellarLines, false⟩ with
    | error e =>
        have hnot : (RoomDef.empty.readSections ⟨"0007.rom", [], cellarLines, false⟩).toOption.isSome = true := by
          decide +kernel
        rw [hd] at hnot
        cases hnot
    | ok d => exact ⟨d, rfl⟩
  obtain ⟨d, hd⟩ := hread
  have hparse := parse_eq_ok_iff.2 ⟨d, hd, (rfl : install 7 d
    ⟨Store.run beforeCellar, Table.insert ∅ "0007.rom:4" (.cached 1)⟩ = (_, _))⟩
  obtain ⟨hnames, -, -, -, hsigs⟩ := parse_complete hparse
  rw [hlines] at hnames hsigs
  refine ⟨_, _, hparse, hnames.trans (by decide +kernel), ?_⟩
  have hopenings : (openings "0007.rom" cellarLines).map some =
      [some "0007.rom:4", some "0007.rom:7", some "0007.rom:11", some "0007.rom:16", some "0007.rom:19"] := by
    decide +kernel
  rw [← hopenings]
  refine hsigs (fun n => ?_) inCellar (by simp [inCellar])
  rw [Table.get?_insert]
  split <;> simp

end Room
end Adventure
