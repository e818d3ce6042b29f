import Adventure.Room.Basic
import Adventure.Proofs.Script.Adoption
import Adventure.Proofs.Variables
/-! Rooms and containers as owners of chunks. Installing takes the chunks of a definition in order and
destroying gives back what was taken. -/
namespace Adventure

open Script (Chunk ChunkId Library)

/-! ### Installing -/

/-- The chunks of an object in the order in which the library takes them. -/
def ObjectDef.chunkList (d : ObjectDef) : List Chunk :=
  d.chunks.go ++ d.chunks.look ++ d.chunks.use

def RoomDef.chunkList (d : RoomDef) : List Chunk :=
  d.objects.flatMap ObjectDef.chunkList ++ d.enter

theorem Object.install_eq (d : ObjectDef) (l : Library) :
    ((install d l).1.chunkIds, (install d l).2) = Library.adoptAll d.chunkList l := by
  simp only [ObjectDef.chunkList, Library.adoptAll_append, install, chunkIds]

theorem Container.install_eq (ds : List ObjectDef) (l : Library) :
    ((install ds l).1.chunkIds, (install ds l).2) =
      Library.adoptAll (ds.flatMap ObjectDef.chunkList) l := by
  induction ds generalizing l with
  | nil => rfl
  | cons d ds ih =>
      rw [List.flatMap_cons, Library.adoptAll_append, ← Object.install_eq, ← ih]
      rfl

theorem Room.install_eq (id : UInt16) (d : RoomDef) (l : Library) :
    ((install id d l).1.chunkIds, (install id d l).2) = Library.adoptAll d.chunkList l := by
  rw [RoomDef.chunkList, Library.adoptAll_append, ← Container.install_eq]
  rfl

theorem Container.chunkIds_install (ds : List ObjectDef) (l : Library) :
    (install ds l).1.chunkIds = (Library.adoptAll (ds.flatMap ObjectDef.chunkList) l).1 :=
  congrArg Prod.fst (install_eq ds l)

theorem Container.library_install (ds : List ObjectDef) (l : Library) :
    (install ds l).2 = (Library.adoptAll (ds.flatMap ObjectDef.chunkList) l).2 :=
  congrArg Prod.snd (install_eq ds l)

theorem Room.chunkIds_install (id : UInt16) (d : RoomDef) (l : Library) :
    (install id d l).1.chunkIds = (Library.adoptAll d.chunkList l).1 :=
  congrArg Prod.fst (install_eq id d l)

theorem Room.library_install (id : UInt16) (d : RoomDef) (l : Library) :
    (install id d l).2 = (Library.adoptAll d.chunkList l).2 :=
  congrArg Prod.snd (install_eq id d l)

/-! ### Destroying -/

theorem Container.destroy_eq (c : Container) (l : Library) : c.destroy l = l.releaseAll c.chunkIds := by
  obtain ⟨objects⟩ := c
  unfold destroy chunkIds
  induction objects generalizing l with
  | nil => rfl
  | cons o objects ih => rw [List.foldl_cons, ih, List.flatMap_cons, Library.releaseAll_append]; rfl

theorem Room.destroy_eq (room : Room) (l : Library) : room.destroy l = l.releaseAll room.chunkIds := by
  rw [destroy, Container.destroy_eq, chunkIds, Library.releaseAll_append]

/-! ### The variables of a room -/

/-- A set of names with one more. Names that are nothing but blanks are left out. -/
def addName (names : NameSet) (name : String) : NameSet :=
  if (variableKey name).isEmpty then names else names.insert (variableKey name) ()

theorem addName_of_mem {names : NameSet} {name : String}
    (h : (variableKey name).isEmpty ∨ names.get? (variableKey name) = some ()) :
    addName names name = names := by
  unfold addName
  split
  · rfl
  · next hne => exact Table.insert_of_get?_eq_some (h.resolve_left hne)

theorem get?_addName_self (names : NameSet) (name : String) :
    (variableKey name).isEmpty ∨ (addName names name).get? (variableKey name) = some () := by
  unfold addName
  split
  · next h => exact .inl h
  · exact .inr (Table.get?_insert_self _ _ _)

theorem get?_addName_of_mem {names : NameSet} {key : String} (h : names.get? key = some ()) (name : String) :
    (addName names name).get? key = some () := by
  unfold addName
  split
  · exact h
  · rw [Table.get?_insert]
    split
    · rfl
    · exact h

theorem get?_foldl_addName {names : NameSet} {key : String} (added : List String)
    (h : names.get? key = some ()) : (added.foldl addName names).get? key = some () := by
  induction added generalizing names with
  | nil => exact h
  | cons name added ih =>
      rw [List.foldl_cons]
      exact ih (get?_addName_of_mem h name)

theorem mem_foldl_addName {added : List String} {name : String} (h : name ∈ added) (names : NameSet) :
    (variableKey name).isEmpty ∨ (added.foldl addName names).get? (variableKey name) = some () := by
  induction added generalizing names with
  | nil => cases h
  | cons first added ih =>
      rw [List.foldl_cons]
      rcases List.mem_cons.1 h with rfl | h
      · exact (get?_addName_self names name).imp_right (get?_foldl_addName added)
      · exact ih h (addName names first)

theorem foldl_addName_of_mem {added : List String} {names : NameSet}
    (h : ∀ name ∈ added, (variableKey name).isEmpty ∨ names.get? (variableKey name) = some ()) :
    added.foldl addName names = names := by
  induction added with
  | nil => rfl
  | cons name added ih =>
      rw [List.foldl_cons, addName_of_mem (h name List.mem_cons_self)]
      exact ih fun other hother => h other (List.mem_cons_of_mem name hother)

theorem foldl_addName_foldl_addName (added : List String) (names : NameSet) :
    added.foldl addName (added.foldl addName names) = added.foldl addName names :=
  foldl_addName_of_mem fun _ hname => mem_foldl_addName hname names

namespace Room
variable {room : Room} {v w : Variables}

theorem declareVariables_eq (room : Room) (v : Variables) : room.declareVariables v = { v with
    localNames := (room.locals ++ room.randoms.map Prod.fst).foldl addName v.localNames
    randoms := RandomVariable.declareAll (room.randoms.map fun (name, max) => (variableKey name, max))
      v.randoms } := by
  have hlocal : ∀ (v : Variables) (name : String),
      v.declareLocal name = { v with localNames := addName v.localNames name } := by
    intro v name
    unfold Variables.declareLocal addName
    dsimp only
    split <;> rfl
  have hlocals : ∀ (names : List String) (v : Variables), names.foldl Variables.declareLocal v =
      { v with localNames := names.foldl addName v.localNames } := by
    intro names
    induction names with
    | nil => intro v; rfl
    | cons name names ih => intro v; simp only [List.foldl_cons, ih, hlocal]
  have hrandoms : ∀ (ds : List (String × UInt8)) (v : Variables),
      ds.foldl (fun vars (name, max) => (vars.declareLocal name).declareRandom name max) v = { v with
        localNames := (ds.map Prod.fst).foldl addName v.localNames
        randoms := RandomVariable.declareAll (ds.map fun (name, max) => (variableKey name, max))
          v.randoms } := by
    intro ds
    induction ds with
    | nil => intro v; rfl
    | cons d ds ih =>
        intro v
        obtain ⟨name, max⟩ := d
        rw [List.foldl_cons, ih]
        simp only [hlocal, List.map_cons, List.foldl_cons, Variables.declareRandom,
          RandomVariable.declareAll_cons]
  rw [declareVariables, hlocals, hrandoms, List.foldl_append]

/-- The names that a room declares, where none were declared before. -/
def Declares (room : Room) (v : Variables) : Prop :=
  v.SameDeclarations (room.declareVariables .empty)

theorem declares_declareVariables (h : v.SameDeclarations .empty) :
    room.Declares (room.declareVariables v) where
  localNames := by simp only [declareVariables_eq, h.localNames]
  randoms := by simp only [declareVariables_eq, h.randoms]

/-- Declaring the variables of a room again changes nothing. -/
theorem declareVariables_of_declares (h : room.Declares v) : room.declareVariables v = v := by
  have hempty : Variables.empty.randoms = [] := rfl
  obtain ⟨hnames, hrandoms⟩ := h
  simp only [declareVariables_eq, hempty] at hnames hrandoms
  obtain ⟨globals, locals, localNames, randoms, lastChanged⟩ := v
  subst hnames hrandoms
  simp only [declareVariables_eq, foldl_addName_foldl_addName, RandomVariable.declareAll_declareAll]

end Room
end Adventure
