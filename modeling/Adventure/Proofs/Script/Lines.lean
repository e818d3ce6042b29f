import Adventure.Proofs.Script.Adoption
/-! How far each script has come, as a list of lines, and what becomes of the chunks that are taken
while the lines wait for them. -/
namespace Adventure.Script.Library
variable {l : Library} {defs cs : List Chunk} {id : ChunkId} {c d : Chunk} {sig : String}

/-! ### The lines of a library -/

theorem lines_ascending (l : Library) : l.lines.Pairwise fun a b => a.1 < b.1 := by
  refine l.register.keys_ascending.filterMap _ fun a b hab r hr r' hr' => ?_
  split at hr
  · split at hr <;> cases hr
    split at hr'
    · split at hr' <;> cases hr'
      exact hab
    · cases hr'
  · cases hr

theorem mem_lines_iff {line : UInt32} : (sig, line) ∈ l.lines ↔ l.lineOf? sig = some line ∧ line ≠ 0 := by
  unfold lines
  rw [List.mem_filterMap]
  constructor
  · rintro ⟨key, -, hkey⟩
    split at hkey
    · next hline =>
      split at hkey <;> cases hkey
      next hne => exact ⟨hline, by simpa using hne⟩
    · cases hkey
  · rintro ⟨hline, hne⟩
    refine ⟨sig, ?_, by simp [hline, hne]⟩
    cases hslot : l.register.get? sig with
    | none => simp [lineOf?, hslot] at hline
    | some p => exact Table.mem_keys_iff.2 ⟨p, hslot⟩

theorem lines_keys_nodup (l : Library) : (l.lines.map Prod.fst).Nodup :=
  List.nodup_iff_pairwise_ne.2 (List.pairwise_map.2 (l.lines_ascending.imp fun {a b} hlt (heq : a.1 = b.1) =>
    String.lt_irrefl _ (heq ▸ hlt)))

/-- Two libraries have the same lines if each signature stands at the same line in both. A signature at
line 0 counts as one that is not known. -/
theorem lines_eq_of_lineOf? {l' : Library}
    (h : ∀ sig, (l'.lineOf? sig).filter (· ≠ 0) = (l.lineOf? sig).filter (· ≠ 0)) : l'.lines = l.lines := by
  refine eq_of_ascending l'.lines_ascending l.lines_ascending ?_
  rintro ⟨sig, line⟩
  have hmem : ∀ k : Library, (sig, line) ∈ k.lines ↔ (k.lineOf? sig).filter (· ≠ 0) = some line := by
    intro k
    simp [mem_lines_iff, Option.filter_eq_some_iff]
  rw [hmem, hmem, h]

/-- After the lines are restored, each of them waits for its chunk. -/
theorem restoreLines_register (l k : Library) (sig : String) :
    (k.restoreLines l.lines).register.get? sig =
      ((l.lineOf? sig).filter (· ≠ 0)).map Progress.ofLine := by
  ext slot
  rw [restoreLines, Table.get?_ofList_eq_some_iff]
  · simp only [List.mem_map, Prod.exists, Prod.mk.injEq, mem_lines_iff, Option.map_eq_some_iff,
      Option.filter_eq_some_iff, decide_eq_true_eq]
    constructor
    · rintro ⟨_, line, hline, rfl, rfl⟩
      exact ⟨line, hline, rfl⟩
    · rintro ⟨line, hline, rfl⟩
      exact ⟨sig, line, hline, rfl, rfl⟩
  · rw [List.map_map]
    exact l.lines_keys_nodup

theorem lineOf?_of_removed (h : l.register.get? sig = some .removed) :
    l.lineOf? sig = some removedLine := by
  simp [lineOf?, h]

theorem lineOf?_of_ofLine {line : UInt32} (h : l.register.get? sig = some (.ofLine line)) :
    l.lineOf? sig = some line := by
  unfold Progress.ofLine at h
  split at h
  · next hrem => rw [lineOf?_of_removed h, ← eq_of_beq hrem]
  · simp [lineOf?, h]

theorem restoreLines_lineOf? (l k : Library) (sig : String) :
    (k.restoreLines l.lines).lineOf? sig = (l.lineOf? sig).filter (· ≠ 0) := by
  have hslot := restoreLines_register l k sig
  cases hline : (l.lineOf? sig).filter (· ≠ 0) with
  | none =>
      rw [hline, Option.map_none] at hslot
      simp [lineOf?, hslot]
  | some line =>
      rw [hline, Option.map_some] at hslot
      exact lineOf?_of_ofLine hslot

/-- No line waits for a chunk that is not loaded. -/
def NoneWaiting (l : Library) : Prop :=
  ∀ sig line, l.register.get? sig ≠ some (.cached line)

theorem NoneWaiting.empty : Library.empty.NoneWaiting :=
  fun _ _ h => nomatch h

theorem NoneWaiting.adopt (h : l.NoneWaiting) (d : Chunk) : (l.adopt d).2.NoneWaiting :=
  fun sig line hslot => h sig line (cached_of_adopt hslot)

theorem NoneWaiting.adoptAll (h : l.NoneWaiting) (cs : List Chunk) : (adoptAll cs l).2.NoneWaiting := by
  induction cs generalizing l with
  | nil => exact h
  | cons c cs ih => exact ih (h.adopt c)

theorem stored_of_noneWaiting (h : l.NoneWaiting) (hs : l.store.Sound) (cs : List Chunk) :
    ∀ id ∈ (adoptAll cs l).1, ∃ c ∈ cs, (adoptAll cs l).2.store.get? id = some c := by
  intro id hid
  obtain ⟨d, hd, c, hstored, rfl | ⟨line, hline, -⟩⟩ := stored_of_adoptAll hs cs id hid
  · exact ⟨c, hd, hstored⟩
  · exact absurd hline (h _ line)

theorem NoneWaiting.releaseAll (h : l.NoneWaiting) (ids : List ChunkId) :
    (l.releaseAll ids).NoneWaiting := by
  induction ids generalizing l with
  | nil => exact h
  | cons id ids ih =>
      refine ih fun sig line hslot => ?_
      rw [release_register] at hslot
      split at hslot
      · cases hslot
      · exact h sig line hslot

theorem NoneWaiting.plays {l' : Library} (h : l.NoneWaiting) (hp : Plays l l') : l'.NoneWaiting := by
  intro sig line hslot
  rcases hp.slots sig with heq | hrem
  · exact h sig line (heq ▸ hslot)
  · rw [hrem] at hslot
    cases hslot

/-! ### Chunks under their signatures -/

/-- The chunk that the register leads to. -/
def chunk? (l : Library) (sig : String) : Option Chunk :=
  (l.live? sig).bind l.store.get?

theorem chunk?_of_live (h : l.register.get? sig = some (.live id)) : l.chunk? sig = l.store.get? id := by
  rw [chunk?, live?_eq_some_iff.2 h, Option.bind_some]

theorem chunk?_of_ne_live (h : ∀ id, l.register.get? sig ≠ some (.live id)) : l.chunk? sig = none := by
  cases hlive : l.live? sig with
  | none => rw [chunk?, hlive, Option.bind_none]
  | some id => exact absurd (live?_eq_some_iff.1 hlive) (h id)

theorem chunk?_eq_some_iff :
    l.chunk? sig = some c ↔ ∃ id, l.register.get? sig = some (.live id) ∧ l.store.get? id = some c := by
  rw [chunk?, Option.bind_eq_some_iff]
  simp only [live?_eq_some_iff]

theorem Sound.of_chunk? (h : l.Sound defs) (hc : l.chunk? sig = some c) :
    c.fresh ∈ defs ∧ c.signature = sig ∧ c.retired = false ∧ c.InRange := by
  obtain ⟨id, hlive, hc⟩ := chunk?_eq_some_iff.1 hc
  obtain ⟨c', hc', hsig, hr⟩ := h.stored_of_live hlive
  cases hc.symm.trans hc'
  exact ⟨h.mem_defs hc, hsig, hr, h.inRange hc⟩

theorem Sound.chunk?_of_stored (h : l.Sound defs) (hc : l.store.get? id = some c)
    (hr : c.retired = false) : l.chunk? c.signature = some c := by
  rw [chunk?_of_live (h.live_of_stored hc hr), hc]

theorem lineOf?_of_chunk? (h : l.chunk? sig = some c) : l.lineOf? sig = some c.position.toUInt32 := by
  obtain ⟨id, hlive, hc⟩ := chunk?_eq_some_iff.1 h
  simp [lineOf?, hlive, hc]

/-- Each of the chunks stands where the register had it wait. -/
theorem adoptAll_chunk? (hs : l.store.Sound) (hnodup : (cs.map Chunk.signature).Nodup) (hd : d ∈ cs) :
    (adoptAll cs l).2.chunk? d.signature = placed d (l.register.get? d.signature) := by
  induction cs generalizing l with
  | nil => cases hd
  | cons e cs ih =>
      obtain ⟨hnot, hnodup⟩ := List.nodup_cons.1 hnodup
      have hgrows := adopt_grows hs e
      rcases List.mem_cons.1 hd with rfl | hd
      · have hreg := adoptAll_register_of_ne (l := (l.adopt d).2) hnot
        cases hplaced : placed d (l.register.get? d.signature) with
        | none =>
            have hrem := placed_eq_none_iff.1 hplaced
            refine chunk?_of_ne_live fun id hid => ?_
            rw [adoptAll, hreg, adopt_of_removed hrem, hrem] at hid
            cases hid
        | some c =>
            obtain ⟨id, -, hc, hlive⟩ := adopt_store hs hplaced
            refine chunk?_eq_some_iff.2 ⟨id, ?_, (adoptAll_grows cs hgrows.sound).get?_of_some hc⟩
            rw [adoptAll, hreg, hlive, Table.get?_insert_self]
      · have hne : d.signature ≠ e.signature := fun heq => hnot (heq ▸ List.mem_map_of_mem hd)
        rw [adoptAll, ih hgrows.sound hnodup hd, adopt_register_of_ne hne]

theorem adoptAll_lineOf?_of_ne (h : sig ∉ cs.map Chunk.signature)
    (hlive : ∀ id, l.register.get? sig ≠ some (.live id)) :
    (adoptAll cs l).2.lineOf? sig = l.lineOf? sig := by
  have hreg := adoptAll_register_of_ne (l := l) h
  unfold lineOf?
  rw [hreg]
  cases hslot : l.register.get? sig with
  | none => rfl
  | some p =>
      cases p with
      | live id => exact absurd hslot (hlive id)
      | cached _ => rfl
      | removed => rfl

/-! ### Chunks that lines wait for -/

/-- The library after the lines of `l` were restored and the chunks taken. -/
def resumed (l : Library) (cs : List Chunk) : List ChunkId × Library :=
  adoptAll cs (empty.restoreLines l.lines)

theorem resumed_sound (l : Library) (hcs : ∀ d ∈ cs, d.fresh = d)
    (hnodup : (cs.map Chunk.signature).Nodup) : (l.resumed cs).2.Sound cs :=
  (Sound.ofLines l.lines).adoptAll hcs hnodup

theorem resumed_holds (l : Library) (hcs : ∀ d ∈ cs, d.fresh = d)
    (hnodup : (cs.map Chunk.signature).Nodup) : (l.resumed cs).2.Holds (l.resumed cs).1 cs :=
  holds_adoptAll (Sound.ofLines l.lines).store hcs hnodup

theorem resumed_chunk? (l : Library) (hcs : ∀ d ∈ cs, d.fresh = d) (hnodup : (cs.map Chunk.signature).Nodup)
    (hd : d ∈ cs) : (l.resumed cs).2.chunk? d.signature =
      if l.lineOf? d.signature = some removedLine then none
      else some (d.seek ((l.lineOf? d.signature).getD 0).toNat) := by
  have hplaced : (l.resumed cs).2.chunk? d.signature =
      placed d (((l.lineOf? d.signature).filter (· ≠ 0)).map Progress.ofLine) := by
    rw [resumed, adoptAll_chunk? Store.Sound.empty hnodup hd, restoreLines_register]
  rw [hplaced]
  cases hline : l.lineOf? d.signature with
  | none => simp [placed, Chunk.seek_zero (hcs d hd)]
  | some line =>
      by_cases hzero : line = 0
      · subst hzero
        simp [placed, Chunk.seek_zero (hcs d hd), removedLine]
      · by_cases hrem : line = removedLine
        · simp [Option.filter_some, hrem, placed, Progress.ofLine, removedLine]
        · simp [Option.filter_some, hzero, hrem, placed, Progress.ofLine]

/-- A chunk comes back where it stood, unless the line of its place marks it as removed. -/
theorem Sound.resumed_chunk? (h : l.Sound defs) (hcs : ∀ d ∈ cs, d.fresh = d)
    (hnodup : (cs.map Chunk.signature).Nodup) (hsub : c.fresh ∈ cs) (hc : l.chunk? sig = some c) :
    (l.resumed cs).2.chunk? sig =
      if c.position.toUInt32 = removedLine then none
      else some (c.fresh.seek c.position.toUInt32.toNat) := by
  obtain ⟨-, hsig, -, -⟩ := h.of_chunk? hc
  have hback := l.resumed_chunk? hcs hnodup hsub
  rw [Chunk.fresh_signature, hsig, lineOf?_of_chunk? hc] at hback
  simpa using hback

theorem toUInt32_of_short {n : Nat} (h : n < removedLine.toNat) :
    n.toUInt32 ≠ removedLine ∧ n.toUInt32.toNat = n := by
  have hn : n.toUInt32.toNat = n := by
    have hsize : n < UInt32.size := Nat.lt_trans h removedLine.toNat_lt
    simpa using Nat.mod_eq_of_lt hsize
  refine ⟨fun heq => ?_, hn⟩
  rw [heq] at hn
  exact absurd hn (Nat.ne_of_gt h)

theorem Sound.resumed_chunk?_of_short (h : l.Sound defs) (hcs : ∀ d ∈ cs, d.fresh = d)
    (hnodup : (cs.map Chunk.signature).Nodup) (hmem : c.fresh ∈ cs) (hc : l.chunk? sig = some c)
    (hshort : c.actions.length < removedLine.toNat) : (l.resumed cs).2.chunk? sig = some c := by
  obtain ⟨-, -, hr, hin⟩ := h.of_chunk? hc
  obtain ⟨hne, hline⟩ := toUInt32_of_short (Nat.lt_of_le_of_lt hin hshort)
  rw [h.resumed_chunk? hcs hnodup hmem hc, if_neg hne, hline, Chunk.seek_of_fresh_eq rfl hr hin]

theorem Holds.removed_of_chunk?_eq_none (hh : l.Holds ids defs) (h : l.Sound defs) (hd : d ∈ defs)
    (hnone : l.chunk? d.signature = none) : l.register.get? d.signature = some .removed := by
  rcases hh.known d hd with hslot | ⟨id, -, hlive⟩
  · exact hslot
  · obtain ⟨c, hc, -⟩ := h.live hlive
    rw [chunk?_of_live hlive, hc] at hnone
    cases hnone

/-- A line that is not the mark of removed chunks is that of a loaded chunk, which its definition is long
enough for. -/
theorem Sound.line_le_length (h : l.Sound defs) (hwait : l.NoneWaiting) (hcs : ∀ d ∈ cs, d.fresh = d)
    (hnodup : (cs.map Chunk.signature).Nodup) (hsub : defs ⊆ cs) (hd : d ∈ cs) {line : UInt32}
    (hline : l.lineOf? d.signature = some line) (hne : line ≠ removedLine) :
    line.toNat ≤ d.actions.length := by
  cases hslot : l.register.get? d.signature with
  | none => simp [lineOf?, hslot] at hline
  | some p =>
      cases p with
      | live id =>
          obtain ⟨c, hc, hsig⟩ := h.live hslot
          have hcd : c.fresh = d := List.inj_on_of_nodup_map hnodup (hsub (h.mem_defs hc)) hd hsig
          have hpos : line = c.position.toUInt32 := by
            simpa [lineOf?, hslot, hc, eq_comm] using hline
          rw [← Chunk.actions_of_fresh_eq (hcd.trans (hcs d hd).symm), hpos]
          refine Nat.le_trans ?_ (h.inRange hc)
          simpa using Nat.mod_le c.position UInt32.size
      | cached n => exact absurd hslot (hwait d.signature n)
      | removed =>
          rw [lineOf?_of_removed hslot, Option.some.injEq] at hline
          exact absurd hline.symm hne

theorem resumed_lineOf?_of_ne (l : Library) (h : sig ∉ cs.map Chunk.signature) :
    (l.resumed cs).2.lineOf? sig = (l.lineOf? sig).filter (· ≠ 0) := by
  have hlive : ∀ id, (empty.restoreLines l.lines).register.get? sig ≠ some (.live id) := by
    intro id hlive
    obtain ⟨c, hc, -⟩ := (Sound.ofLines l.lines).live hlive
    cases (Store.get?_empty id).symm.trans hc
  rw [resumed, adoptAll_lineOf?_of_ne h hlive, restoreLines_lineOf?]

/-- Where every chunk of the library is taken again, the lines are as before. -/
theorem Sound.resumed_lines (h : l.Sound defs) (hwait : l.NoneWaiting) (hcs : ∀ d ∈ cs, d.fresh = d)
    (hnodup : (cs.map Chunk.signature).Nodup) (hsub : defs ⊆ cs) : (l.resumed cs).2.lines = l.lines := by
  refine lines_eq_of_lineOf? fun sig => ?_
  by_cases hsig : sig ∈ cs.map Chunk.signature
  · obtain ⟨d, hd, rfl⟩ := List.mem_map.1 hsig
    have hback := l.resumed_chunk? hcs hnodup hd
    split at hback
    · next hrem =>
      rw [hrem, lineOf?_of_removed ((l.resumed_holds hcs hnodup).removed_of_chunk?_eq_none
        (l.resumed_sound hcs hnodup) hd hback)]
    · next hne =>
      rw [lineOf?_of_chunk? hback]
      cases hline : l.lineOf? d.signature with
      | none =>
          rw [Option.getD_none, UInt32.toNat_zero, Chunk.seek_zero (hcs d hd),
            Chunk.position_of_fresh (hcs d hd)]
          rfl
      | some line =>
          have hin := h.line_le_length hwait hcs hnodup hsub hd hline fun heq => hne (heq ▸ hline)
          rw [Option.getD_some, Chunk.seek, Nat.min_eq_left hin]
          simp
  · rw [l.resumed_lineOf?_of_ne hsig, Option.filter_filter]
    simp

end Adventure.Script.Library
