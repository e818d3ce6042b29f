import Mathlib.Data.List.Perm.Basic
import Mathlib.Data.List.Nodup
import Adventure.Room.Basic
import Adventure.Proofs.Room.Install
import Adventure.Proofs.Script.Chunk
import Adventure.Proofs.Text.Reader
/-! The chunks that a text defines. Each `Cond` line opens one chunk, which bears the place of the line;
nothing is left out and nothing comes twice. -/
namespace Adventure

open Script (Chunk)
open Text (Line Reader)

/-! ### Places -/

theorem eq_of_append_cons_eq {α : Type} {a : α} {xs ys as bs : List α} (h : xs ++ a :: as = ys ++ a :: bs)
    (ha : a ∉ as) (hb : a ∉ bs) : xs = ys ∧ as = bs := by
  rcases List.append_eq_append_iff.1 h with ⟨zs, hys, hzs⟩ | ⟨zs, hxs, hzs⟩
  · cases zs with
    | nil => exact ⟨by simpa using hys.symm, by simpa using hzs⟩
    | cons z zs =>
        rw [List.cons_append, List.cons.injEq] at hzs
        exact absurd (hzs.2 ▸ List.mem_append_right _ List.mem_cons_self) ha
  · cases zs with
    | nil => exact ⟨by simpa using hxs, by simpa using hzs.symm⟩
    | cons z zs =>
        rw [List.cons_append, List.cons.injEq] at hzs
        exact absurd (hzs.2 ▸ List.mem_append_right _ List.mem_cons_self) hb

theorem Location.toList_text (l : Location) :
    l.text.toList = l.file.toList ++ ':' :: Nat.toDigits 10 l.line := by
  simp [text, toString]

theorem colon_not_mem_toDigits (n : Nat) : ':' ∉ Nat.toDigits 10 n := by
  intro h
  have hdigit := Nat.isDigit_of_mem_toDigits (by decide) (by decide) h
  simp at hdigit

theorem Location.text_inj {a b : Location} (h : a.text = b.text) : a = b := by
  have hlist := congrArg String.toList h
  rw [toList_text, toList_text] at hlist
  obtain ⟨hfile, hline⟩ :=
    eq_of_append_cons_eq hlist (colon_not_mem_toDigits _) (colon_not_mem_toDigits _)
  have hnumber := congrArg (Nat.ofDigitChars 10 · 0) hline
  simp only [Nat.ofDigitChars_ten_toDigits] at hnumber
  cases a
  cases b
  cases hnumber
  cases String.toList_inj.1 hfile
  rfl

/-! ### Lines -/

theorem Text.lines_ascending (text : String) : (Text.lines text).Pairwise fun a b => a.number < b.number := by
  have hnumbered : ∀ (raws : List (List Char)) (start : Nat),
      (raws.zipIdx start).Pairwise fun a b => a.2 < b.2 := by
    intro raws
    induction raws with
    | nil => intro start; exact .nil
    | cons raw raws ih =>
        intro start
        refine List.pairwise_cons.2 ⟨fun b hb => ?_, ih (start + 1)⟩
        exact List.le_snd_of_mem_zipIdx hb
  refine (hnumbered _ 1).filterMap _ fun a b hab l hl l' hl' => ?_
  rw [Line.number_of_ofPhysical? hl, Line.number_of_ofPhysical? hl']
  exact hab

theorem Text.Line.is_eq_of_is {l : Line} {keyword : String} (h : l.is keyword = true) : l.is = same keyword := by
  funext other
  rw [is, same_iff] at h
  rw [is, same, h]
  rfl

theorem Text.Line.is_other_of_is {l : Line} {keyword other : String} (h : l.is keyword = true)
    (hne : same keyword other = false) : l.is other = false := by
  rw [is_eq_of_is h, hne]

theorem Text.Line.is_of_verb {l : Line} {verb : Verb} (h : Verb.ofText? l.command = some verb) :
    l.is verb.keyword = true := by
  unfold Verb.ofText? at h
  have hsame := List.find?_some h
  rwa [same_comm] at hsame

/-- The signatures of the chunks that lines open. -/
def openings (file : String) (lines : List Line) : List String :=
  (lines.filter (·.is "Cond")).map fun l => Location.text ⟨file, l.number⟩

theorem openings_append (file : String) (ls ms : List Line) :
    openings file (ls ++ ms) = openings file ls ++ openings file ms := by
  rw [openings, List.filter_append, List.map_append]
  rfl

theorem openings_cons_of_not_cond {file : String} {l : Line} (h : l.is "Cond" = false) (ls : List Line) :
    openings file (l :: ls) = openings file ls := by
  rw [openings, List.filter_cons_of_neg (by simp [h])]
  rfl

theorem openings_nodup (file : String) {lines : List Line}
    (h : lines.Pairwise fun a b => a.number < b.number) : (openings file lines).Nodup := by
  refine List.pairwise_map.2 ((h.filter _).imp fun {a b} hlt heq => ?_)
  exact absurd (congrArg Location.line (Location.text_inj heq)) (Nat.ne_of_lt hlt)

/-! ### Runs of chunks -/

namespace Script.Chunk

theorem addLine_ok {file : String} {c d : Chunk} {l : Line} (h : c.addLine file l = .ok d) :
    d.signature = c.signature ∧ d.position = c.position ∧ d.retired = c.retired := by
  unfold addLine at h
  split at h
  · cases h; exact ⟨rfl, rfl, rfl⟩
  · split at h
    · split at h
      · simp only [bind, Except.bind, pure, Except.pure] at h
        split at h <;> cases h
        exact ⟨rfl, rfl, rfl⟩
      · cases h
    · split at h
      · cases h; exact ⟨rfl, rfl, rfl⟩
      · cases h; exact ⟨rfl, rfl, rfl⟩

theorem fresh_opening (file : String) (l : Line) : (opening file l).fresh = opening file l := rfl

theorem collect_ok {file : String} {cs ds : List Chunk} {l : Line} (h : collect file cs l = .ok ds)
    (hcs : ∀ c ∈ cs, c.fresh = c) :
    ds.reverse.map signature = cs.reverse.map signature ++ openings file [l] ∧ ∀ d ∈ ds, d.fresh = d := by
  unfold collect at h
  split at h
  · next hcond =>
    cases h
    refine ⟨by simp [openings, hcond, opening, ofParts], fun d hd => ?_⟩
    rcases List.mem_cons.1 hd with rfl | hd
    · exact fresh_opening file l
    · exact hcs d hd
  · next hcond =>
    rw [Bool.not_eq_true] at hcond
    split at h
    · cases h
    · next c rest =>
      simp only [bind, Except.bind, pure, Except.pure] at h
      split at h <;> cases h
      next d hd =>
        obtain ⟨hsig, hp, hr⟩ := addLine_ok hd
        have hc := hcs c List.mem_cons_self
        refine ⟨by simp [hsig, openings, hcond], fun e he => ?_⟩
        rcases List.mem_cons.1 he with rfl | he
        · exact fresh_of_unmoved (hp.trans (position_of_fresh hc)) (hr.trans (retired_of_fresh hc))
        · exact hcs e (List.mem_cons_of_mem c he)

theorem foldlM_collect_ok {file : String} {lines : List Line} {cs ds : List Chunk}
    (h : lines.foldlM (collect file) cs = .ok ds) (hcs : ∀ c ∈ cs, c.fresh = c) :
    ds.reverse.map signature = cs.reverse.map signature ++ openings file lines ∧ ∀ d ∈ ds, d.fresh = d := by
  induction lines generalizing cs with
  | nil =>
      cases h
      exact ⟨(List.append_nil _).symm, hcs⟩
  | cons l lines ih =>
      simp only [List.foldlM_cons, bind, Except.bind] at h
      split at h
      · cases h
      · next hfirst =>
        obtain ⟨hsigs, hfresh⟩ := collect_ok hfirst hcs
        obtain ⟨hrest, hds⟩ := ih h hfresh
        refine ⟨?_, hds⟩
        rw [hrest, hsigs, List.append_assoc, ← openings_append, List.singleton_append]

theorem ofLines_ok {file : String} {lines : List Line} {cs : List Chunk} (h : ofLines file lines = .ok cs) :
    cs.map signature = openings file lines ∧ ∀ c ∈ cs, c.fresh = c := by
  unfold ofLines at h
  simp only [bind, Except.bind, pure, Except.pure] at h
  split at h <;> cases h
  next hds =>
    obtain ⟨hsigs, hfresh⟩ := foldlM_collect_ok hds (by simp)
    exact ⟨hsigs, fun c hc => hfresh c (List.mem_reverse.1 hc)⟩

end Script.Chunk

/-! ### Readers -/

/-- Chunks are read up to the next block keyword. -/
theorem Script.readChunks_ok {r r' : Reader} {cs : List Chunk} (h : readChunks r = .ok (cs, r')) :
    r'.file = r.file ∧ r'.after = r.after.dropWhile (!·.isBlockKeyword) ∧
      cs.map Chunk.signature = openings r.file (r.after.takeWhile (!·.isBlockKeyword)) ∧
      ∀ c ∈ cs, c.fresh = c := by
  unfold readChunks at h
  simp only [Reader.takeWhile, bind, Except.bind, pure, Except.pure] at h
  split at h <;> cases h
  next hlines => exact ⟨rfl, rfl, Chunk.ofLines_ok hlines⟩

/-- Between two states of a reader the chunks were read, each from the line that opens it. -/
structure Yields (r r' : Reader) (cs : List Chunk) : Prop where
  file : r'.file = r.file
  openings : (openings r.file r.after).Perm (cs.map Chunk.signature ++ openings r.file r'.after)
  fresh : ∀ c ∈ cs, c.fresh = c

namespace Yields
variable {r r' r'' : Reader} {cs ds : List Chunk}

theorem refl (r : Reader) : Yields r r [] :=
  ⟨rfl, List.Perm.refl _, by simp⟩

theorem trans (h : Yields r r' cs) (h' : Yields r' r'' ds) : Yields r r'' (cs ++ ds) where
  file := h'.file.trans h.file
  openings := by
    have hlater := h'.openings
    rw [h.file] at hlater
    rw [List.map_append, List.append_assoc]
    exact h.openings.trans (hlater.append_left _)
  fresh c hc := (List.mem_append.1 hc).elim (h.fresh c) (h'.fresh c)

theorem perm (h : Yields r r' cs) (hp : cs.Perm ds) : Yields r r' ds where
  file := h.file
  openings := h.openings.trans ((hp.map _).append_right _)
  fresh c hc := h.fresh c (hp.mem_iff.2 hc)

theorem skip {l : Line} (h : r.next? = some (l, r')) (hcond : l.is "Cond" = false) : Yields r r' [] := by
  obtain ⟨hfile, hafter⟩ := Reader.eq_of_next? h
  exact ⟨hfile, by rw [hafter, openings_cons_of_not_cond hcond]; exact .refl _, by simp⟩

theorem readChunks (h : Script.readChunks r = .ok (cs, r')) : Yields r r' cs := by
  obtain ⟨hfile, hafter, hsigs, hfresh⟩ := Script.readChunks_ok h
  refine ⟨hfile, ?_, hfresh⟩
  rw [hsigs, hafter, ← openings_append, List.takeWhile_append_dropWhile]

end Yields

/-! ### Objects -/

namespace ObjectDef

theorem chunkList_addChunks (d : ObjectDef) (verb : Verb) (cs : List Chunk) :
    (d.addChunks verb cs).chunkList.Perm (d.chunkList ++ cs) := by
  obtain ⟨name, rect, ⟨go, look, use⟩⟩ := d
  cases verb with
  | go =>
      simp only [addChunks, chunkList, PerVerb.set, PerVerb.get, List.append_assoc]
      refine List.Perm.append_left go ?_
      rw [← List.append_assoc look use cs]
      exact List.perm_append_comm
  | look =>
      simp only [addChunks, chunkList, PerVerb.set, PerVerb.get, List.append_assoc]
      exact (List.perm_append_comm.append_left look).append_left go
  | use =>
      simp only [addChunks, chunkList, PerVerb.set, PerVerb.get, List.append_assoc]
      exact .refl _

theorem is_cond_of_verb {l : Line} {verb : Verb} (h : Verb.ofText? l.command = some verb) :
    l.is "Cond" = false :=
  Line.is_other_of_is (Line.is_of_verb h) (by cases verb <;> decide)

theorem readBody_yields {d d' : ObjectDef} {r r' : Reader} (h : readBody d r = .ok (d', r')) :
    ∃ cs, Yields r r' cs ∧ d'.chunkList.Perm (d.chunkList ++ cs) := by
  fun_induction readBody d r with
  | case1 => cases h; exact ⟨[], .refl _, by simp⟩
  | case2 => cases h
  | case3 d r l r₁ hr hrect rect _ ih =>
      obtain ⟨cs, hcs, hlist⟩ := ih h
      exact ⟨cs, (Yields.skip hr (Line.is_other_of_is hrect (by decide))).trans hcs, hlist⟩
  | case4 => cases h
  | case5 d r l r₁ hr _ verb hverb chunks r₂ hc ih =>
      obtain ⟨cs, hcs, hlist⟩ := ih h
      refine ⟨chunks ++ cs, (Yields.skip hr (is_cond_of_verb hverb)).trans ((Yields.readChunks hc).trans hcs), ?_⟩
      rw [← List.append_assoc]
      exact hlist.trans ((chunkList_addChunks d verb chunks).append_right cs)
  | case6 d r l r₁ hr _ _ hend =>
      cases h
      exact ⟨[], Yields.skip hr (Line.is_other_of_is hend (by decide)), by simp⟩
  | case7 d r l r₁ hr =>
      cases h
      obtain ⟨hfile, hafter⟩ := Reader.putBack_of_next? hr
      exact ⟨[], ⟨hfile, by rw [hafter]; exact .refl _, by simp⟩, by simp⟩
  | case8 => cases h

theorem read_yields {d : ObjectDef} {r r' : Reader} (h : read r = .ok (d, r')) :
    ∃ cs, Yields r r' cs ∧ d.chunkList.Perm cs := by
  unfold read at h
  split at h
  · cases h
  · next head _ hr =>
    split at h
    · cases h
    · next hobject =>
      split at h
      · cases h
      · obtain ⟨cs, hcs, hlist⟩ := readBody_yields h
        have hhead : head.is "Cond" = false := Line.is_other_of_is (by simpa using hobject) (by decide)
        exact ⟨cs, (Yields.skip hr hhead).trans hcs, hlist⟩

theorem readAll_yields {declared missing : Nat} {ds : List ObjectDef} {r r' : Reader}
    (h : readAll declared missing r = .ok (ds, r')) : Yields r r' (ds.flatMap chunkList) := by
  induction missing generalizing r ds with
  | zero => cases h; exact .refl _
  | succ missing ih =>
    unfold readAll at h
    split at h
    · simp only [bind, Except.bind, pure, Except.pure] at h
      split at h
      · cases h
      · next hd =>
        split at h <;> cases h
        next hds =>
          obtain ⟨cs, hcs, hlist⟩ := read_yields hd
          rw [List.flatMap_cons]
          exact (hcs.perm hlist.symm).trans (ih hds)
    · cases h

theorem readContainer_yields {ds : List ObjectDef} {r r' : Reader} (h : readContainer r = .ok (ds, r')) :
    Yields r r' (ds.flatMap chunkList) := by
  unfold readContainer at h
  split at h
  · cases h
  · next head _ hr =>
    split at h
    · cases h
    · next hobjects =>
      split at h
      · simp only [bind, Except.bind] at h
        split at h
        · cases h
        · have hhead : head.is "Cond" = false := Line.is_other_of_is (by simpa using hobjects) (by decide)
          exact (Yields.skip hr hhead).trans (readAll_yields h)
      · cases h

end ObjectDef

/-! ### Rooms -/

/-- Up to the end of the text a room takes every chunk, each once. -/
theorem RoomDef.readSections_yields {d d' : RoomDef} {r : Reader} (h : d.readSections r = .ok d') :
    ∃ cs r', Yields r r' cs ∧ r'.after = [] ∧ d'.chunkList.Perm (d.chunkList ++ cs) := by
  fun_induction readSections d r with
  | case1 d r hr =>
      cases h
      exact ⟨[], r, .refl r, Reader.after_of_next?_eq_none hr, by simp⟩
  | case2 d r l r₁ hr hlocal ih =>
      obtain ⟨cs, r', hcs, hend, hlist⟩ := ih h
      exact ⟨cs, r', (Yields.skip hr (Line.is_other_of_is hlocal (by decide))).trans hcs, hend, hlist⟩
  | case3 => cases h
  | case4 d r l r₁ hr _ hrandom random _ ih =>
      obtain ⟨cs, r', hcs, hend, hlist⟩ := ih h
      exact ⟨cs, r', (Yields.skip hr (Line.is_other_of_is hrandom (by decide))).trans hcs, hend, hlist⟩
  | case5 => cases h
  | case6 d r l r₁ hr _ _ hmap name _ ih =>
      obtain ⟨cs, r', hcs, hend, hlist⟩ := ih h
      exact ⟨cs, r', (Yields.skip hr (Line.is_other_of_is hmap (by decide))).trans hcs, hend, hlist⟩
  | case7 => cases h
  | case8 d r l r₁ hr _ _ _ _ objects r₂ hobjects ih =>
      obtain ⟨cs, r', hcs, hend, hlist⟩ := ih h
      refine ⟨_, r', (ObjectDef.readContainer_yields hobjects).trans hcs, hend, hlist.trans ?_⟩
      -- The chunks that run on entering stand behind those of all objects.
      simp only [chunkList, List.flatMap_append, List.append_assoc]
      refine List.Perm.append_left _ ?_
      rw [← List.append_assoc, ← List.append_assoc]
      exact List.perm_append_comm.append_right cs
  | case9 => cases h
  | case10 d r l r₁ hr _ _ _ _ henter chunks r₂ hchunks ih =>
      obtain ⟨cs, r', hcs, hend, hlist⟩ := ih h
      have hhead := Yields.skip hr (Line.is_other_of_is henter (by decide))
      refine ⟨chunks ++ cs, r', hhead.trans ((Yields.readChunks hchunks).trans hcs), hend, hlist.trans ?_⟩
      simp only [chunkList, List.append_assoc]
      exact .refl _
  | case11 => cases h

/-! ### Texts -/

/-- The chunks of a text: as they were read, each at its own place of the file. -/
structure Script.Chunk.FromText (file : String) (cs : List Chunk) : Prop where
  fresh : ∀ c ∈ cs, c.fresh = c
  distinct : (cs.map signature).Nodup
  places : ∀ c ∈ cs, ∃ line, c.signature = Location.text ⟨file, line⟩

theorem Script.Chunk.FromText.nil (file : String) : FromText file [] where
  fresh _ hc := nomatch hc
  distinct := List.nodup_nil
  places _ hc := nomatch hc

theorem Yields.fromText {file text : String} {r' : Reader} {cs : List Chunk}
    (h : Yields (.ofText file text) r' cs) : Chunk.FromText file cs where
  fresh := h.fresh
  distinct := by
    have hnodup := h.openings.nodup_iff.1 (openings_nodup file (Text.lines_ascending text))
    exact (List.nodup_append.1 hnodup).1
  places c hc := by
    have hmem : c.signature ∈ Adventure.openings file (Text.lines text) :=
      h.openings.mem_iff.2 (List.mem_append_left _ (List.mem_map_of_mem hc))
    obtain ⟨l, -, hl⟩ := List.mem_map.1 hmem
    exact ⟨l.number, hl.symm⟩

theorem Script.Chunk.FromText.perm {file : String} {cs ds : List Chunk} (h : FromText file cs)
    (hp : cs.Perm ds) : FromText file ds where
  fresh c hc := h.fresh c (hp.mem_iff.2 hc)
  distinct := (hp.map _).nodup_iff.1 h.distinct
  places c hc := h.places c (hp.mem_iff.2 hc)

/-- Chunks of different files have different signatures. -/
theorem Script.Chunk.FromText.disjoint {file file' : String} {cs ds : List Chunk} (h : FromText file cs)
    (h' : FromText file' ds) (hne : file ≠ file') : ∀ d ∈ ds, d.signature ∉ cs.map signature := by
  intro d hd hmem
  obtain ⟨c, hc, heq⟩ := List.mem_map.1 hmem
  obtain ⟨line, hline⟩ := h.places c hc
  obtain ⟨line', hline'⟩ := h'.places d hd
  rw [hline, hline'] at heq
  exact hne (congrArg Location.file (Location.text_inj heq))

theorem RoomDef.fromText {file : String} {bytes : List UInt8} {d : RoomDef}
    (h : empty.readSections (.ofBytes file bytes) = .ok d) : Chunk.FromText file d.chunkList := by
  obtain ⟨cs, r', hcs, -, hlist⟩ := readSections_yields h
  exact hcs.fromText.perm hlist.symm

theorem ObjectDef.fromText {file : String} {bytes : List UInt8} {ds : List ObjectDef} {r' : Reader}
    (h : readContainer (.ofBytes file bytes) = .ok (ds, r')) :
    Chunk.FromText file (ds.flatMap chunkList) :=
  (readContainer_yields h).fromText

end Adventure
