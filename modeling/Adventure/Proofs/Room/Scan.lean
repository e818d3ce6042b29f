import Adventure.Proofs.Room.Parse
import Adventure.Proofs.Text.Stops
/-! Rooms read line by line. The readers of chunks, objects, containers and rooms answer what the definitions say, and
where one fails its own reader shows how far it came. -/
namespace Adventure

open Script (Chunk)
open Text (Line Reader)

/-! ### Chunks -/

namespace Script

/-- Reads on from the chunks read so far, latest first. -/
def scanChunks (chunks : List Chunk) (r : Reader) : Reply (List Chunk) :=
  match _ : r.next? with
  | none => .ok chunks.reverse r
  | some (l, r') =>
    if l.isBlockKeyword then .ok chunks.reverse r'.putBack
    else
      match Chunk.collect r.file chunks l with
      | .error e => .stop e r'
      | .ok chunks => scanChunks chunks r'
termination_by r.after.length
decreasing_by
  exact Reader.length_after_of_next? (by assumption)

theorem outcome_scanChunks_of (chunks : List Chunk) (r : Reader) : (scanChunks chunks r).outcome =
    ((r.takeWhile (!·.isBlockKeyword)).1.foldlM (Chunk.collect r.file) chunks).map
      fun chunks => (chunks.reverse, (r.takeWhile (!·.isBlockKeyword)).2) := by
  fun_induction scanChunks chunks r with
  | case1 chunks r hr => rw [Reader.takeWhile_of_next?_eq_none _ hr]; rfl
  | case2 chunks r l r₁ hr hblock => rw [Reader.takeWhile_of_neg hr (by simpa using hblock)]; rfl
  | case3 chunks r l r₁ hr hblock e he =>
      rw [Reader.takeWhile_of_pos hr (by simpa using hblock), List.foldlM_cons, he]
      rfl
  | case4 chunks r l r₁ hr hblock chunks' hchunks ih =>
      rw [Reader.takeWhile_of_pos hr (by simpa using hblock), List.foldlM_cons, hchunks, ih,
        (Reader.eq_of_next? hr).1]
      rfl

theorem outcome_scanChunks (r : Reader) : (scanChunks [] r).outcome = readChunks r := by
  rw [outcome_scanChunks_of, readChunks]
  unfold Chunk.ofLines
  dsimp only [Reader.takeWhile]
  cases (r.after.takeWhile (!·.isBlockKeyword)).foldlM (Chunk.collect r.file) [] with
  | error e => rfl
  | ok chunks => rfl

variable {counted : Bool} {file text : String} {r r' : Reader} {l : Line} {e : ParseError} {chunks : List Chunk}

theorem Chunk.addLine_error {c : Chunk} (h : c.addLine file l = .error e) : e.OfLine file l := by
  unfold addLine at h
  split at h
  · cases h
  · split at h
    · split at h
      · simp only [bind, Except.bind, pure, Except.pure] at h
        split at h <;> cases h
        next hread => exact Line.readNumber_error hread
      · cases h; exact .argumentCount 1 _
    · split at h <;> cases h

theorem Chunk.collect_error (h : Chunk.collect file chunks l = .error e) : e.OfLine file l := by
  unfold collect at h
  split at h
  · cases h
  · split at h
    · cases h; exact .missingCondition
    · simp only [bind, Except.bind, pure, Except.pure] at h
      split at h <;> cases h
      next hadd => exact addLine_error hadd

/-- The lines of chunks close no object. -/
theorem leads_scanChunks (hreads : Reader.Reads file text r) (hr : r.Within) :
    (scanChunks chunks r).Leads file text counted Reader.Within := by
  fun_induction scanChunks chunks r with
  | case1 => exact ⟨hreads, hr⟩
  | case2 chunks r l r₁ hnext hblock =>
      refine ⟨(hreads.next hnext).putBack, ?_⟩
      rw [Reader.putBack_next hnext]
      exact ⟨hr.latest, .inr (Reader.after_ne_nil hnext)⟩
  | case3 chunks r l r₁ hnext hblock e he => exact Reply.leads_stop hreads hnext (Chunk.collect_error he)
  | case4 chunks r l r₁ hnext hblock chunks' hchunks ih =>
      have hend : l.is "End" = false := by
        rw [Bool.not_eq_true] at hblock
        simpa using List.any_eq_false.1 hblock "End" (by decide)
      exact ih (hreads.next hnext) (Reader.within_of_next? hnext hend)

theorem leads_of_scanChunks {reply : Reply (List Chunk)} (h : scanChunks [] r = reply)
    (hreads : Reader.Reads file text r) (hr : r.Within) : reply.Leads file text counted Reader.Within :=
  h ▸ leads_scanChunks hreads hr

theorem length_after_of_scanChunks (h : scanChunks [] r = .ok chunks r') : r'.after.length ≤ r.after.length := by
  have houtcome := outcome_scanChunks r
  rw [h] at houtcome
  exact length_after_of_readChunks houtcome.symm

end Script

/-! ### Objects -/

namespace ObjectDef

/-- Reads what follows the name of an object. -/
def scanBody (d : ObjectDef) (r : Reader) : Reply ObjectDef :=
  match _ : r.next? with
  | none => .ok d r
  | some (l, r') =>
    if l.is "Rect" then
      match readRect r.file l with
      | .error e => .stop e r'
      | .ok rect => scanBody { d with rect } r'
    else
      match Verb.ofText? l.command with
      | some verb =>
        match _ : Script.scanChunks [] r' with
        | .stop e r'' => .stop e r''
        | .ok chunks r'' => scanBody (d.addChunks verb chunks) r''
      | none =>
        if l.is "End" then .ok d r'
        else if l.isBlockKeyword then .ok d r'.putBack
        else .stop (l.unknownSection r.file) r'
termination_by r.after.length
decreasing_by
  · exact Reader.length_after_of_next? (by assumption)
  · exact Nat.lt_of_le_of_lt (Script.length_after_of_scanChunks (by assumption))
      (Reader.length_after_of_next? (by assumption))

def scan (r : Reader) : Reply ObjectDef :=
  match r.next? with
  | none => .stop (.unexpectedEnd r.here .object) r
  | some (head, r') =>
    if !head.is "Object" then .stop (head.unexpected r.file .object) r'
    else if head.args.isEmpty then .stop (head.argumentCount r.file 1 0) r'
    else scanBody { name := head.args, rect := default, chunks := .const [] } r'

/-- Reads the missing objects of a container. -/
def scanAll (declared : Nat) : Nat → Reader → Reply (List ObjectDef)
  | 0, r => .ok [] r
  | missing + 1, r =>
    if r.peek?.any (·.is "Object") then
      (scan r).bind fun d r => (scanAll declared missing r).bind fun ds r => .ok (d :: ds) r
    else .stop (.shortContainer r.here declared (declared - (missing + 1))) r

def scanContainer (r : Reader) : Reply (List ObjectDef) :=
  match r.next? with
  | none => .stop (.unexpectedEnd r.here .container) r
  | some (head, r') =>
    if !head.is "Objects" then .stop (head.unexpected r.file .objects) r'
    else
      match head.arguments with
      | [count] =>
        (Reply.ofExcept (head.readNumber r.file Text.readUInt64 count) r').bind fun declared r =>
          scanAll declared.toNat declared.toNat r
      | args => .stop (head.argumentCount r.file 1 args.length) r'

theorem outcome_scanBody (d : ObjectDef) (r : Reader) : (scanBody d r).outcome = readBody d r := by
  fun_induction scanBody d r with
  | case1 d r hr => rw [readBody, hr]; rfl
  | case2 d r l r₁ hr hrect e he =>
      rw [readBody, hr]
      simp only [hrect, if_true, he]
      rfl
  | case3 d r l r₁ hr hrect rect hread ih =>
      rw [readBody, hr]
      simp only [hrect, if_true, hread, ih]
  | case4 d r l r₁ hr hrect verb hverb e r₂ hchunks =>
      have hread : Script.readChunks r₁ = .error e := by rw [← Script.outcome_scanChunks, hchunks]; rfl
      rw [readBody, hr]
      simp only [hrect, hverb]
      rw [hread]
      rfl
  | case5 d r l r₁ hr hrect verb hverb chunks r₂ hchunks ih =>
      have hread : Script.readChunks r₁ = .ok (chunks, r₂) := by rw [← Script.outcome_scanChunks, hchunks]; rfl
      rw [readBody, hr]
      simp only [hrect, hverb]
      rw [hread]
      exact ih
  | case6 d r l r₁ hr hrect hverb hend =>
      rw [readBody, hr]
      simp only [hrect, hverb, hend, if_true]
      rfl
  | case7 d r l r₁ hr hrect hverb hend hblock =>
      rw [readBody, hr]
      simp only [hrect, hverb, hend, hblock, if_true]
      rfl
  | case8 d r l r₁ hr hrect hverb hend hblock =>
      rw [readBody, hr]
      simp only [hrect, hverb, hend, hblock]
      rfl

theorem outcome_scan (r : Reader) : (scan r).outcome = read r := by
  unfold scan read
  cases r.next? with
  | none => rfl
  | some next =>
      dsimp only
      split
      · rfl
      · split
        · rfl
        · exact outcome_scanBody _ _

theorem outcome_scanAll (declared missing : Nat) (r : Reader) :
    (scanAll declared missing r).outcome = readAll declared missing r := by
  induction missing generalizing r with
  | zero => rfl
  | succ missing ih =>
      unfold scanAll readAll
      split
      · rw [Reply.outcome_bind, outcome_scan]
        cases read r with
        | error e => rfl
        | ok p =>
            obtain ⟨d, r₁⟩ := p
            simp only [Except.bind, bind, Reply.outcome_bind, ih]
            cases readAll declared missing r₁ <;> rfl
      · rfl

theorem outcome_scanContainer (r : Reader) : (scanContainer r).outcome = readContainer r := by
  unfold scanContainer readContainer
  cases r.next? with
  | none => rfl
  | some next =>
      obtain ⟨head, r₁⟩ := next
      dsimp only
      split
      · rfl
      · rcases head.arguments with _ | ⟨count, _ | ⟨_, _⟩⟩
        · rfl
        · dsimp only
          cases head.readNumber r.file Text.readUInt64 count with
          | error e => rfl
          | ok declared => exact outcome_scanAll _ _ _
        · rfl

theorem readRect_error {file : String} {l : Line} {e : ParseError} (h : readRect file l = .error e) :
    e.OfLine file l := by
  unfold readRect at h
  split at h
  · simp only [bind, Except.bind, pure, Except.pure] at h
    split at h
    · next hread => cases h; exact Line.readNumber_error hread
    · split at h
      · next hread => cases h; exact Line.readNumber_error hread
      · split at h
        · next hread => cases h; exact Line.readNumber_error hread
        · split at h
          · next hread => cases h; exact Line.readNumber_error hread
          · cases h
  · cases h; exact .argumentCount 4 _

section
variable {counted : Bool} {file text : String} {d : ObjectDef} {r : Reader} {declared missing : Nat}

theorem leads_scanBody (hreads : Reader.Reads file text r) (hr : r.Within) :
    (scanBody d r).Leads file text counted Reader.Behind := by
  fun_induction scanBody d r with
  | case1 d r hnext => exact ⟨hreads, hr.behind_of_end (Reader.after_of_next?_eq_none hnext)⟩
  | case2 d r l r₁ hnext hrect e he => exact Reply.leads_stop hreads hnext (readRect_error he)
  | case3 d r l r₁ hnext hrect rect hread ih =>
      exact ih (hreads.next hnext) (Reader.within_of_next? hnext (Line.is_other_of_is hrect (by decide)))
  | case4 d r l r₁ hnext hrect verb hverb e r₂ hchunks =>
      have hend : l.is "End" = false := Line.is_other_of_is (Line.is_of_verb hverb) (by cases verb <;> decide)
      exact Script.leads_of_scanChunks hchunks (hreads.next hnext) (Reader.within_of_next? hnext hend)
  | case5 d r l r₁ hnext hrect verb hverb chunks r₂ hchunks ih =>
      have hend : l.is "End" = false := Line.is_other_of_is (Line.is_of_verb hverb) (by cases verb <;> decide)
      obtain ⟨hreads₂, hwithin⟩ : Reply.Leads file text counted _ _ :=
        Script.leads_of_scanChunks hchunks (hreads.next hnext) (Reader.within_of_next? hnext hend)
      exact ih hreads₂ hwithin
  | case6 d r l r₁ hnext hrect hverb hend => exact ⟨hreads.next hnext, Reader.behind_of_closing hnext hend⟩
  | case7 d r l r₁ hnext hrect hverb hend hblock =>
      exact ⟨(hreads.next hnext).putBack, hr.behind_putBack hnext⟩
  | case8 d r l r₁ hnext hrect hverb hend hblock => exact Reply.leads_stop hreads hnext .unknownSection

theorem leads_scan (hreads : Reader.Reads file text r) : (scan r).Leads file text counted Reader.Behind := by
  unfold scan
  split
  · next hnext => exact ⟨hreads, .ended (Reader.after_of_next?_eq_none hnext) .object⟩
  · next head r₁ hnext =>
    split
    · exact Reply.leads_stop hreads hnext (.unexpected .object)
    · next hobject =>
      rw [Bool.not_eq_true, Bool.not_eq_false'] at hobject
      split
      · exact Reply.leads_stop hreads hnext (.argumentCount 1 0)
      · exact leads_scanBody (hreads.next hnext)
          (Reader.within_of_next? hnext (Line.is_other_of_is hobject (by decide)))

/-- Where another object is to come there was the heading of the container, or an object. -/
theorem leads_scanAll (hreads : Reader.Reads file text r) (hle : missing ≤ declared) (hbefore : r.before ≠ [])
    (hfresh : r.fresh = true ↔ missing = declared ∨ r.after = [] ∨ r.AtClosing) :
    (scanAll declared missing r).Leads file text true fun _ => True := by
  induction missing generalizing r with
  | zero => exact ⟨hreads, trivial⟩
  | succ missing ih =>
      unfold scanAll
      split
      · refine (leads_scan hreads).bind fun d r₁ hreads₁ hbehind => ?_
        have hnot : missing ≠ declared := by omega
        have hall := ih hreads₁ (by omega) hbehind.before (by rw [hbehind.fresh, or_iff_right hnot])
        exact hall.bind fun ds r₂ hreads₂ _ => ⟨hreads₂, trivial⟩
      · refine ⟨hreads, .short declared hbefore (hfresh.trans (or_congr_left ?_))⟩
        omega

theorem leads_scanContainer (hreads : Reader.Reads file text r) :
    (scanContainer r).Leads file text true fun _ => True := by
  unfold scanContainer
  split
  · next hnext => exact ⟨hreads, .ended (Reader.after_of_next?_eq_none hnext) .container⟩
  · next head r₁ hnext =>
    obtain ⟨hlatest, hfresh⟩ := Reader.latest_of_next? hnext
    split
    · exact Reply.leads_stop hreads hnext (.unexpected .objects)
    · split
      · next count hcount =>
        cases hread : head.readNumber r.file Text.readUInt64 count with
        | error e => exact Reply.leads_stop hreads hnext (Line.readNumber_error hread)
        | ok declared =>
            exact leads_scanAll (hreads.next hnext) (Nat.le_refl _) (Reader.before_ne_nil hlatest)
              (iff_of_true hfresh (.inl rfl))
      · exact Reply.leads_stop hreads hnext (.argumentCount 1 _)

end
end ObjectDef

/-! ### Rooms -/

namespace RoomDef

/-- The heading of a container is put back, for the container to read it. -/
theorem readContainer_putBack {r r' : Reader} {l : Line} (h : r.next? = some (l, r')) :
    ObjectDef.readContainer r'.putBack = ObjectDef.readContainer r := by
  unfold ObjectDef.readContainer
  rw [Reader.next?_putBack h, h, (Reader.putBack_of_next? h).1]

theorem length_after_of_scanContainer {ds : List ObjectDef} {r r' : Reader}
    (h : ObjectDef.scanContainer r = .ok ds r') : r'.after.length < r.after.length := by
  have houtcome := ObjectDef.outcome_scanContainer r
  rw [h] at houtcome
  exact ObjectDef.length_after_of_readContainer houtcome.symm

/-- Reads the sections of a room. -/
def scan (d : RoomDef) (r : Reader) : Reply RoomDef :=
  match _ : r.next? with
  | none => .ok d r
  | some (l, r') =>
    if l.is "Local" then scan { d with locals := d.locals ++ l.arguments } r'
    else if l.is "Random" then
      match readRandom r.file l with
      | .error e => .stop e r'
      | .ok random => scan { d with randoms := d.randoms ++ [random] } r'
    else if l.is "WalkMap" then
      match readWalkMap r.file l with
      | .error e => .stop e r'
      | .ok name => scan { d with walkMap := some name } r'
    else if l.is "Objects" then
      match _ : ObjectDef.scanContainer r'.putBack with
      | .stop e r'' => .stop e r''
      | .ok objects r'' => scan { d with objects := d.objects ++ objects } r''
    else if l.is "Enter" then
      match _ : Script.scanChunks [] r' with
      | .stop e r'' => .stop e r''
      | .ok chunks r'' => scan { d with enter := d.enter ++ chunks } r''
    else .stop (l.unknownSection r.file) r'
termination_by r.after.length
decreasing_by
  · exact Reader.length_after_of_next? (by assumption)
  · exact Reader.length_after_of_next? (by assumption)
  · exact Reader.length_after_of_next? (by assumption)
  · exact Nat.lt_of_lt_of_eq (length_after_of_scanContainer (by assumption))
      (congrArg List.length (Reader.putBack_of_next? (by assumption)).2)
  · exact Nat.lt_of_le_of_lt (Script.length_after_of_scanChunks (by assumption))
      (Reader.length_after_of_next? (by assumption))

theorem outcome_scan (d : RoomDef) (r : Reader) : (scan d r).outcome.map Prod.fst = d.readSections r := by
  fun_induction scan d r with
  | case1 d r hr => rw [readSections, hr]; rfl
  | case2 d r l r₁ hr hlocal ih =>
      rw [readSections, hr]
      simp only [hlocal, if_true, ih]
  | case3 d r l r₁ hr hlocal hrandom e he =>
      rw [readSections, hr]
      simp only [hlocal, hrandom, if_true, he]
      rfl
  | case4 d r l r₁ hr hlocal hrandom random hread ih =>
      rw [readSections, hr]
      simp only [hlocal, hrandom, if_true, hread, ih]
      rfl
  | case5 d r l r₁ hr hlocal hrandom hmap e he =>
      rw [readSections, hr]
      simp only [hlocal, hrandom, hmap, if_true, he]
      rfl
  | case6 d r l r₁ hr hlocal hrandom hmap name hread ih =>
      rw [readSections, hr]
      simp only [hlocal, hrandom, hmap, if_true, hread, ih]
      rfl
  | case7 d r l r₁ hr hlocal hrandom hmap hobjects e r₂ hscan =>
      have hread : ObjectDef.readContainer r = .error e := by
        rw [← readContainer_putBack hr, ← ObjectDef.outcome_scanContainer, hscan]
        rfl
      rw [readSections, hr]
      simp only [hlocal, hrandom, hmap, hobjects]
      rw [hread]
      rfl
  | case8 d r l r₁ hr hlocal hrandom hmap hobjects objects r₂ hscan ih =>
      have hread : ObjectDef.readContainer r = .ok (objects, r₂) := by
        rw [← readContainer_putBack hr, ← ObjectDef.outcome_scanContainer, hscan]
        rfl
      rw [readSections, hr]
      simp only [hlocal, hrandom, hmap, hobjects]
      rw [hread]
      exact ih
  | case9 d r l r₁ hr hlocal hrandom hmap hobjects henter e r₂ hscan =>
      have hread : Script.readChunks r₁ = .error e := by rw [← Script.outcome_scanChunks, hscan]; rfl
      rw [readSections, hr]
      simp only [hlocal, hrandom, hmap, hobjects, henter]
      rw [hread]
      rfl
  | case10 d r l r₁ hr hlocal hrandom hmap hobjects henter chunks r₂ hscan ih =>
      have hread : Script.readChunks r₁ = .ok (chunks, r₂) := by rw [← Script.outcome_scanChunks, hscan]; rfl
      rw [readSections, hr]
      simp only [hlocal, hrandom, hmap, hobjects, henter]
      rw [hread]
      exact ih
  | case11 d r l r₁ hr hlocal hrandom hmap hobjects henter =>
      rw [readSections, hr]
      simp only [hlocal, hrandom, hmap, hobjects, henter]
      rfl

section
variable {file text : String} {d : RoomDef} {r : Reader} {l : Line} {e : ParseError}

theorem readRandom_error (h : readRandom file l = .error e) : e.OfLine file l := by
  unfold readRandom at h
  split at h
  · simp only [bind, Except.bind, pure, Except.pure] at h
    split at h <;> cases h
    next hread => exact Line.readNumber_error hread
  · cases h; exact .argumentCount 2 _

theorem readWalkMap_error (h : readWalkMap file l = .error e) : e.OfLine file l := by
  unfold readWalkMap at h
  split at h <;> cases h
  exact .argumentCount 1 _

theorem leads_scan (hreads : Reader.Reads file text r) : (scan d r).Leads file text true fun _ => True := by
  fun_induction scan d r with
  | case1 d r hnext => exact ⟨hreads, trivial⟩
  | case2 d r l r₁ hnext hlocal ih => exact ih (hreads.next hnext)
  | case3 d r l r₁ hnext _ hrandom e he => exact Reply.leads_stop hreads hnext (readRandom_error he)
  | case4 d r l r₁ hnext _ hrandom random hread ih => exact ih (hreads.next hnext)
  | case5 d r l r₁ hnext _ _ hmap e he => exact Reply.leads_stop hreads hnext (readWalkMap_error he)
  | case6 d r l r₁ hnext _ _ hmap name hread ih => exact ih (hreads.next hnext)
  | case7 d r l r₁ hnext _ _ _ hobjects e r₂ hscan =>
      have hleads := ObjectDef.leads_scanContainer (hreads.next hnext).putBack
      rw [hscan] at hleads
      exact hleads
  | case8 d r l r₁ hnext _ _ _ hobjects objects r₂ hscan ih =>
      have hleads := ObjectDef.leads_scanContainer (hreads.next hnext).putBack
      rw [hscan] at hleads
      exact ih hleads.1
  | case9 d r l r₁ hnext _ _ _ _ henter e r₂ hscan =>
      have hwithin := Reader.within_of_next? hnext (Line.is_other_of_is henter (by decide))
      exact Script.leads_of_scanChunks hscan (hreads.next hnext) hwithin
  | case10 d r l r₁ hnext _ _ _ _ henter chunks r₂ hscan ih =>
      have hwithin := Reader.within_of_next? hnext (Line.is_other_of_is henter (by decide))
      obtain ⟨hreads₂, -⟩ : Reply.Leads file text true _ _ :=
        Script.leads_of_scanChunks hscan (hreads.next hnext) hwithin
      exact ih hreads₂
  | case11 d r l r₁ hnext => exact Reply.leads_stop hreads hnext .unknownSection

end
end RoomDef
end Adventure
