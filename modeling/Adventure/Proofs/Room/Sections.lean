import Mathlib.Data.List.TakeWhile
import Adventure.Proofs.Room.Parse
/-! What the text of a room says of the room itself. Its names stand in `Local` and `Random` lines and its
entrance chunks behind `Enter` lines, wherever these are in the text; the objects take none of them. -/
namespace Adventure

open Script (Chunk)
open Text (Line Reader)

/-! ### Lines of the room itself -/

def roomKeywords : List String :=
  ["Local", "Random", "Enter"]

/-- A line that speaks of the room itself, not of its objects. -/
def Text.Line.isRoomKeyword (l : Line) : Bool :=
  roomKeywords.any l.is

/-- The names that a room calls its own. -/
def localNames (lines : List Line) : List String :=
  (lines.filter (·.is "Local")).flatMap Line.arguments

/-- The names of the room's random variables, each the first word of its line. -/
def randomNames (lines : List Line) : List String :=
  (lines.filter (·.is "Random")).flatMap (·.arguments.take 1)

/-- The lines whose latest block keyword is `Enter`. `entering` tells whether the latest one was. -/
def entranceLines (entering : Bool) : List Line → List Line
  | [] => []
  | l :: ls =>
    if l.isBlockKeyword then entranceLines (l.is "Enter") ls
    else if entering then l :: entranceLines entering ls
    else entranceLines entering ls

theorem Text.Line.isRoomKeyword_of_is {l : Line} {keyword : String} (h : l.is keyword = true) :
    l.isRoomKeyword = roomKeywords.any (same keyword) := by
  rw [isRoomKeyword, is_eq_of_is h]

theorem Text.Line.isBlockKeyword_of_is {l : Line} {keyword : String} (h : l.is keyword = true) :
    l.isBlockKeyword = blockKeywords.any (same keyword) := by
  rw [isBlockKeyword, is_eq_of_is h]

theorem Text.Line.not_roomKeyword_of_not_block {l : Line} (h : l.isBlockKeyword = false) :
    l.isRoomKeyword = false := by
  have hblock : ∀ keyword ∈ roomKeywords, blockKeywords.any (same keyword) = true := by decide
  rw [isRoomKeyword, List.any_eq_false]
  intro keyword hmem his
  rw [isBlockKeyword_of_is his, hblock keyword hmem] at h
  cases h

theorem Text.Line.is_eq_false_of_not_room {l : Line} (h : l.isRoomKeyword = false) {keyword : String}
    (hmem : keyword ∈ roomKeywords) : l.is keyword = false :=
  Bool.eq_false_iff.2 (List.any_eq_false.1 h keyword hmem)

theorem localNames_cons {l : Line} (h : l.is "Local" = true) (ls : List Line) :
    localNames (l :: ls) = l.arguments ++ localNames ls := by
  rw [localNames, List.filter_cons_of_pos (by simp [h]), List.flatMap_cons, localNames]

theorem localNames_cons_of_not {l : Line} (h : l.is "Local" = false) (ls : List Line) :
    localNames (l :: ls) = localNames ls := by
  rw [localNames, List.filter_cons_of_neg (by simp [h]), localNames]

theorem randomNames_cons {l : Line} (h : l.is "Random" = true) (ls : List Line) :
    randomNames (l :: ls) = l.arguments.take 1 ++ randomNames ls := by
  rw [randomNames, List.filter_cons_of_pos (by simp [h]), List.flatMap_cons, randomNames]

theorem randomNames_cons_of_not {l : Line} (h : l.is "Random" = false) (ls : List Line) :
    randomNames (l :: ls) = randomNames ls := by
  rw [randomNames, List.filter_cons_of_neg (by simp [h]), randomNames]

/-- Behind a block keyword other than `Enter` there is no entrance. -/
theorem entranceLines_cons_of_not_enter {l : Line} (h : l.is "Enter" = false) (ls : List Line) :
    entranceLines false (l :: ls) = entranceLines false ls := by
  rw [entranceLines, h]
  split <;> simp

theorem entranceLines_cons_of_enter {l : Line} (h : l.is "Enter" = true) (entering : Bool) (ls : List Line) :
    entranceLines entering (l :: ls) = entranceLines true ls := by
  rw [entranceLines, if_pos (by rw [Line.isBlockKeyword_of_is h]; decide), h]

/-- An entrance goes on up to the next block keyword. -/
theorem entranceLines_true (ls : List Line) : entranceLines true ls =
    ls.takeWhile (!·.isBlockKeyword) ++ entranceLines false (ls.dropWhile (!·.isBlockKeyword)) := by
  induction ls with
  | nil => rfl
  | cons l ls ih =>
      by_cases h : l.isBlockKeyword = true
      · simp [entranceLines, h]
      · simp [entranceLines, h, ih]

/-! ### Readers -/

/-- The lines that were read between two states of a reader say nothing of the room itself. -/
structure Passes (r r' : Reader) : Prop where
  file : r'.file = r.file
  lines : ∃ passed, r.after = passed ++ r'.after ∧ ∀ l ∈ passed, l.isRoomKeyword = false

namespace Passes
variable {r r' r'' : Reader} {l : Line} {keyword : String}

theorem refl (r : Reader) : Passes r r :=
  ⟨rfl, [], rfl, by simp⟩

theorem trans (h : Passes r r') (h' : Passes r' r'') : Passes r r'' where
  file := h'.file.trans h.file
  lines := by
    obtain ⟨passed, hafter, hpassed⟩ := h.lines
    obtain ⟨passed', hafter', hpassed'⟩ := h'.lines
    refine ⟨passed ++ passed', by rw [hafter, hafter', List.append_assoc], fun l hl => ?_⟩
    exact (List.mem_append.1 hl).elim (hpassed l) (hpassed' l)

theorem next (h : r.next? = some (l, r')) (hl : l.isRoomKeyword = false) : Passes r r' := by
  obtain ⟨hfile, hafter⟩ := Reader.eq_of_next? h
  exact ⟨hfile, [l], hafter, by simpa using hl⟩

theorem head (h : r.next? = some (l, r')) (hl : l.is keyword = true)
    (hkeyword : roomKeywords.any (Text.same keyword) = false) : Passes r r' :=
  .next h (by rw [Line.isRoomKeyword_of_is hl, hkeyword])

theorem readChunks {cs : List Chunk} (h : Script.readChunks r = .ok (cs, r')) : Passes r r' := by
  obtain ⟨hfile, hafter, -, -⟩ := Script.readChunks_ok h
  refine ⟨hfile, _, hafter ▸ List.takeWhile_append_dropWhile.symm, fun l hl => ?_⟩
  have hblock := List.mem_takeWhile_imp hl
  exact Line.not_roomKeyword_of_not_block (by simpa using hblock)

theorem filter_eq (h : Passes r r') (hmem : keyword ∈ roomKeywords) :
    r.after.filter (·.is keyword) = r'.after.filter (·.is keyword) := by
  obtain ⟨passed, hafter, hpassed⟩ := h.lines
  have hnone : passed.filter (·.is keyword) = [] := by
    apply List.filter_eq_nil_iff.2
    intro l hl
    simp [Line.is_eq_false_of_not_room (hpassed l hl) hmem]
  rw [hafter, List.filter_append, hnone, List.nil_append]

theorem localNames_eq (h : Passes r r') : localNames r.after = localNames r'.after := by
  rw [localNames, h.filter_eq (by decide), localNames]

theorem randomNames_eq (h : Passes r r') : randomNames r.after = randomNames r'.after := by
  rw [randomNames, h.filter_eq (by decide), randomNames]

theorem entranceLines_eq (h : Passes r r') : entranceLines false r.after = entranceLines false r'.after := by
  obtain ⟨passed, hafter, hpassed⟩ := h.lines
  rw [hafter]
  clear hafter
  induction passed with
  | nil => rfl
  | cons l passed ih =>
      obtain ⟨hl, hpassed⟩ := List.forall_mem_cons.1 hpassed
      have henter := Line.is_eq_false_of_not_room hl (by decide : "Enter" ∈ roomKeywords)
      rw [List.cons_append, entranceLines_cons_of_not_enter henter, ih hpassed]

end Passes

/-! ### Objects -/

namespace ObjectDef

theorem passes_readBody {d d' : ObjectDef} {r r' : Reader} (h : readBody d r = .ok (d', r')) : Passes r r' := by
  fun_induction readBody d r with
  | case1 => cases h; exact .refl _
  | case2 => cases h
  | case3 d r l r₁ hr hrect rect _ ih => exact (Passes.head hr hrect (by decide)).trans (ih h)
  | case4 => cases h
  | case5 d r l r₁ hr _ verb hverb chunks r₂ hc ih =>
      have hhead := Passes.head hr (Line.is_of_verb hverb) (by cases verb <;> decide)
      exact hhead.trans ((Passes.readChunks hc).trans (ih h))
  | case6 d r l r₁ hr _ _ hend => cases h; exact Passes.head hr hend (by decide)
  | case7 d r l r₁ hr =>
      cases h
      obtain ⟨hfile, hafter⟩ := Reader.putBack_of_next? hr
      exact ⟨hfile, [], hafter.symm, by simp⟩
  | case8 => cases h

theorem passes_read {d : ObjectDef} {r r' : Reader} (h : read r = .ok (d, r')) : Passes r r' := by
  unfold read at h
  split at h
  · cases h
  · next hr =>
    split at h
    · cases h
    · next hobject =>
      split at h
      · cases h
      · exact (Passes.head hr (by simpa using hobject) (by decide)).trans (passes_readBody h)

theorem passes_readAll {declared missing : Nat} {ds : List ObjectDef} {r r' : Reader}
    (h : readAll declared missing r = .ok (ds, r')) : Passes r r' := by
  induction missing generalizing r ds with
  | zero => cases h; exact .refl _
  | succ missing ih =>
    unfold readAll at h
    split at h
    · simp only [bind, Except.bind, pure, Except.pure] at h
      split at h
      · cases h
      · next hd =>
        split at h <;> cases h
        next hds => exact (passes_read hd).trans (ih hds)
    · cases h

theorem passes_readContainer {ds : List ObjectDef} {r r' : Reader} (h : readContainer r = .ok (ds, r')) :
    Passes r r' := by
  unfold readContainer at h
  split at h
  · cases h
  · next hr =>
    split at h
    · cases h
    · next hobjects =>
      split at h
      · simp only [bind, Except.bind] at h
        split at h
        · cases h
        · exact (Passes.head hr (by simpa using hobjects) (by decide)).trans (passes_readAll h)
      · cases h

end ObjectDef

/-! ### Rooms -/

namespace RoomDef

/-- What a definition gains from lines: their names, and one entrance chunk for each `Cond` of an entrance, in
the order of the lines. -/
structure Gains (d : RoomDef) (file : String) (lines : List Line) (d' : RoomDef) : Prop where
  locals : d'.locals = d.locals ++ localNames lines
  randoms : d'.randoms.map Prod.fst = d.randoms.map Prod.fst ++ randomNames lines
  enter : d'.enter.map Chunk.signature =
    d.enter.map Chunk.signature ++ openings file (entranceLines false lines)

variable {d d₁ d' : RoomDef} {r r₁ : Reader} {l : Line}

theorem gains_nil (d : RoomDef) (file : String) : d.Gains file [] d where
  locals := (List.append_nil _).symm
  randoms := (List.append_nil _).symm
  enter := (List.append_nil _).symm

theorem Gains.passes (h : d₁.Gains r₁.file r₁.after d') (hp : Passes r r₁) (hlocals : d₁.locals = d.locals)
    (hrandoms : d₁.randoms = d.randoms) (henter : d₁.enter = d.enter) : d.Gains r.file r.after d' where
  locals := by rw [hp.localNames_eq, h.locals, hlocals]
  randoms := by rw [hp.randomNames_eq, h.randoms, hrandoms]
  enter := by rw [hp.entranceLines_eq, h.enter, henter, hp.file]

theorem readRandom_ok {file : String} {random : String × UInt8} (h : readRandom file l = .ok random) :
    l.arguments.take 1 = [random.1] := by
  unfold readRandom at h
  split at h
  · next name max hargs =>
    simp only [bind, Except.bind, pure, Except.pure] at h
    split at h <;> cases h
    rw [hargs]
    rfl
  · cases h

theorem gains_readSections (h : d.readSections r = .ok d') : d.Gains r.file r.after d' := by
  fun_induction readSections d r with
  | case1 d r hr =>
      cases h
      rw [Reader.after_of_next?_eq_none hr]
      exact gains_nil _ r.file
  | case2 d r l r₁ hr hlocal ih =>
      obtain ⟨hfile, hafter⟩ := Reader.eq_of_next? hr
      have hrest := ih h
      refine ⟨?_, ?_, ?_⟩
      · rw [hrest.locals, hafter, localNames_cons hlocal, List.append_assoc]
      · rw [hrest.randoms, hafter, randomNames_cons_of_not (Line.is_other_of_is hlocal (by decide))]
      · rw [hrest.enter, hafter, hfile,
          entranceLines_cons_of_not_enter (Line.is_other_of_is hlocal (by decide))]
  | case3 => cases h
  | case4 d r l r₁ hr _ hrandom random hread ih =>
      obtain ⟨hfile, hafter⟩ := Reader.eq_of_next? hr
      have hrest := ih h
      refine ⟨?_, ?_, ?_⟩
      · rw [hrest.locals, hafter, localNames_cons_of_not (Line.is_other_of_is hrandom (by decide))]
      · rw [hrest.randoms, hafter, randomNames_cons hrandom, readRandom_ok hread, List.map_append,
          List.append_assoc]
        rfl
      · rw [hrest.enter, hafter, hfile,
          entranceLines_cons_of_not_enter (Line.is_other_of_is hrandom (by decide))]
  | case5 => cases h
  | case6 d r l r₁ hr _ _ hmap name _ ih => exact (ih h).passes (Passes.head hr hmap (by decide)) rfl rfl rfl
  | case7 => cases h
  | case8 d r l r₁ hr _ _ _ _ objects r₂ hobjects ih =>
      exact (ih h).passes (ObjectDef.passes_readContainer hobjects) rfl rfl rfl
  | case9 => cases h
  | case10 d r l r₁ hr _ _ _ _ henter chunks r₂ hchunks ih =>
      obtain ⟨hfile, hafter⟩ := Reader.eq_of_next? hr
      have hrest := ih h
      have hp := Passes.readChunks hchunks
      obtain ⟨hfile', hafter', hsigs, -⟩ := Script.readChunks_ok hchunks
      refine ⟨?_, ?_, ?_⟩
      · rw [hrest.locals, hafter, localNames_cons_of_not (Line.is_other_of_is henter (by decide)),
          hp.localNames_eq]
      · rw [hrest.randoms, hafter, randomNames_cons_of_not (Line.is_other_of_is henter (by decide)),
          hp.randomNames_eq]
      · rw [hrest.enter, hafter, entranceLines_cons_of_enter henter, entranceLines_true, openings_append,
          List.map_append, List.append_assoc, hsigs, ← hafter', hfile', hfile]
  | case11 => cases h

end RoomDef
end Adventure
