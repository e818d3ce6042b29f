import Adventure.Proofs.Script.Exchange
/-! What befalls a library. Its store may be any that chunks were put into and taken out of; while an owner has its
chunks, they are moved and retired, and others come and go. -/
namespace Adventure.Script

/-! ### Stores -/

namespace Store

inductive Act where
  | insert (chunk : Chunk)
  | remove (id : ChunkId)
  | modify (id : ChunkId) (f : Chunk → Chunk)

def act (s : Store) : Act → Store
  | .insert chunk => (s.insert chunk).2
  | .remove id => (s.remove id).2
  | .modify id f => s.modify id f

def run (acts : List Act) : Store :=
  acts.foldl act .empty

theorem Sound.act {s : Store} (hs : s.Sound) (a : Act) : (s.act a).Sound := by
  cases a with
  | insert chunk => exact hs.insert chunk
  | remove id => exact hs.remove id
  | modify id f => exact hs.modify id f

theorem sound_run (acts : List Act) : (run acts).Sound := by
  have hfold : ∀ {s : Store}, s.Sound → (acts.foldl Store.act s).Sound := by
    induction acts with
    | nil => exact fun hs => hs
    | cons a acts ih => exact fun hs => ih (hs.act a)
  exact hfold .empty

theorem signature?_modify (s : Store) (id : ChunkId) {f : Chunk → Chunk}
    (hf : ∀ c, (f c).signature = c.signature) (j : ChunkId) : (s.modify id f).signature? j = s.signature? j := by
  rw [signature?, get?_modify]
  split
  · next hj =>
    subst hj
    rw [signature?, Option.map_map]
    exact congrArg (Option.map · _) (funext hf)
  · rfl

end Store

/-! ### Deeds -/

/-- What is done with one chunk while its owner has it. -/
inductive Deed where
  | advance
  | rewind
  | skipToEnd
  | seek (target : Nat)
  | retire
  deriving DecidableEq, Repr

def Deed.apply : Deed → Chunk → Chunk
  | .advance => Chunk.advance
  | .rewind => Chunk.rewind
  | .skipToEnd => Chunk.skipToEnd
  | .seek target => (Chunk.seek · target)
  | .retire => Chunk.retire

theorem Deed.isMove_apply {deed : Deed} (h : deed ≠ .retire) : Chunk.IsMove deed.apply := by
  cases deed with
  | advance => exact .advance
  | rewind => exact .rewind
  | skipToEnd => exact .skipToEnd
  | seek target => exact .seek target
  | retire => exact absurd rfl h

theorem Deed.fresh_apply (deed : Deed) (c : Chunk) : (deed.apply c).fresh = c.fresh := by
  by_cases h : deed = .retire
  · subst h; rfl
  · exact (isMove_apply h).fresh c

theorem Deed.signature_apply (deed : Deed) (c : Chunk) : (deed.apply c).signature = c.signature :=
  Chunk.signature_of_fresh_eq (deed.fresh_apply c)

theorem Deed.retired_apply (deed : Deed) (c : Chunk) :
    (deed.apply c).retired = true ↔ deed = .retire ∨ c.retired = true := by
  by_cases h : deed = .retire
  · subst h; simp [apply, Chunk.retire]
  · rw [(isMove_apply h).retired]; simp [h]

namespace Library

def deed (l : Library) (id : ChunkId) : Deed → Library
  | .retire => l.retire id
  | deed => l.move id deed.apply

variable {l : Library} {id : ChunkId}

theorem deed_store (l : Library) (id : ChunkId) (deed : Deed) :
    (l.deed id deed).store = l.store.modify id deed.apply := by
  cases deed with
  | advance => rfl
  | rewind => rfl
  | skipToEnd => rfl
  | seek target => rfl
  | retire =>
      cases hc : l.store.get? id with
      | none => simp [Library.deed, retire, hc, Store.modify_of_get?_eq_none hc]
      | some c => simp [Library.deed, retire, hc, Deed.apply]

/-- The register learns of it when a chunk retires. -/
theorem deed_register (l : Library) (id : ChunkId) (deed : Deed) (sig : String) :
    (l.deed id deed).register.get? sig =
      if deed = .retire ∧ l.store.signature? id = some sig then some .removed else l.register.get? sig := by
  by_cases hdeed : deed = .retire
  · subst hdeed
    cases hc : l.store.get? id with
    | none => simp [Library.deed, retire, Store.signature?, hc]
    | some c =>
        by_cases hsig : sig = c.signature
        · simp [Library.deed, retire, Store.signature?, hc, hsig]
        · simp [Library.deed, retire, Store.signature?, hc, Table.get?_insert, hsig, Ne.symm hsig]
  · rw [if_neg fun h => hdeed h.1]
    cases deed <;> first | rfl | exact absurd rfl hdeed

theorem signature?_deed (l : Library) (id : ChunkId) (deed : Deed) (j : ChunkId) :
    (l.deed id deed).store.signature? j = l.store.signature? j := by
  rw [deed_store, Store.signature?_modify _ _ deed.signature_apply]

/-! ### Acts -/

inductive Act where
  | deed (id : ChunkId) (deed : Deed)
  | adopt (chunk : Chunk)
  | release (id : ChunkId)
  | restore (lines : List (String × UInt32))

def act (l : Library) : Act → Library
  | .deed id deed => l.deed id deed
  | .adopt chunk => (l.adopt chunk).2
  | .release id => l.release id
  | .restore lines => l.restoreLines lines

def run (l : Library) (acts : List Act) : Library :=
  acts.foldl act l

theorem sound_act (hs : l.store.Sound) (a : Act) : (l.act a).store.Sound := by
  cases a with
  | deed id deed => exact deed_store l id deed ▸ hs.modify id deed.apply
  | adopt chunk => exact (adopt_grows hs chunk).sound
  | release id => exact release_store l id ▸ hs.remove id
  | restore lines => exact hs

/-- Whatever else comes and goes, a chunk bears its signature until it is given back. -/
theorem signature?_act (hs : l.store.Sound) {sig : String} (hsig : l.store.signature? id = some sig) {a : Act}
    (ha : a ≠ .release id) : (l.act a).store.signature? id = some sig := by
  cases a with
  | deed j deed => rw [act, signature?_deed, hsig]
  | adopt chunk =>
      obtain ⟨c, hc, hcsig⟩ := Option.map_eq_some_iff.1 hsig
      rw [act, Store.signature?, (adopt_grows hs chunk).get?_of_some hc, Option.map_some, hcsig]
  | release j =>
      have hj : id ≠ j := fun heq => ha (heq ▸ rfl)
      rw [act, Store.signature?, release_store, Store.get?_remove, if_neg hj]
      exact hsig
  | restore lines => exact hsig

theorem signature?_run (hs : l.store.Sound) {sig : String} (hsig : l.store.signature? id = some sig)
    {acts : List Act} (hacts : .release id ∉ acts) : (l.run acts).store.signature? id = some sig := by
  induction acts generalizing l with
  | nil => exact hsig
  | cons a acts ih =>
      rw [List.mem_cons, not_or] at hacts
      exact ih (sound_act hs a) (signature?_act hs hsig (Ne.symm hacts.1)) hacts.2

end Library
end Adventure.Script
