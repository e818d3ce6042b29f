import Adventure.Proofs.Script.Rest
/-! The calls of a round: which actions the queued scripts perform in it, in what order and with what
outcome. The script of a chunk that is queued once plays at the place of its chunk, and the others do not
touch it. -/
namespace Adventure.Script

variable {situation : Situation} {q : Queued} {store : Store} {scene : Scene} {id : ChunkId} {c : Chunk}

/-! ### Outcomes -/

/-- Where a chunk of `length` actions stands after an action at `place`. -/
def Outcome.next (length place : Nat) : Outcome → Nat
  | .ok => place + 1
  | .invalid => length
  | .stop => length
  | .wait _ => place + 1
  | .hold => place

/-- What the script waits for after an action. -/
def Outcome.reason : Outcome → Wait
  | .wait reason => reason
  | _ => .none

theorem Action.withArgument_ne_wait_none {α : Type} (argument : Option α) (s : Scene)
    {act : α → Outcome × Scene} (h : ∀ value, (act value).1 ≠ .wait .none) :
    (withArgument argument s act).1 ≠ .wait .none := by
  cases argument with
  | none => exact fun heq => nomatch heq
  | some value => exact h value

/-- An action that waits waits for something. -/
theorem Action.perform_ne_wait_none (situation : Situation) (a : Action) (s : Scene) :
    (a.perform situation s).1 ≠ .wait .none := by
  unfold perform
  split
  case h_3 | h_14 => split <;> simp
  case h_18 => simp
  case h_1 | h_8 =>
    refine withArgument_ne_wait_none _ s fun value => ?_
    dsimp only
    split <;> simp
  all_goals exact withArgument_ne_wait_none _ s fun value => by simp

/-! ### Calls -/

/-- An action that is performed, and what came of it. -/
structure Call where
  chunk : ChunkId
  place : Nat
  action : Action
  outcome : Outcome
  deriving DecidableEq, Repr

/-- The call of a script in its turn, if any. -/
def Queued.call? (situation : Situation) (q : Queued) (store : Store) (scene : Scene) : Option Call :=
  if q.wait.isPending situation scene.host then none
  else
    (store.get? q.chunk).bind fun c => c.currentAction?.map fun action =>
      { chunk := q.chunk, place := c.position, action, outcome := (action.perform situation scene).1 }

/-- The calls of a round. -/
def calls (situation : Situation) : List Queued → Store → Scene → List Call
  | [], _, _ => []
  | q :: queue, store, scene =>
    let turn := q.turn situation store scene
    (q.call? situation store scene).toList ++ calls situation queue turn.store turn.scene

/-- What the first script of a chunk finds at its turn. -/
def sceneAt? (situation : Situation) (id : ChunkId) : List Queued → Store → Scene → Option Scene
  | [], _, _ => none
  | q :: queue, store, scene =>
    if q.chunk = id then some scene
    else
      let turn := q.turn situation store scene
      sceneAt? situation id queue turn.store turn.scene

/-- A turn in which nothing is performed. -/
structure Turn.Idles (t : Turn) (wait : Wait) (store : Store) (scene : Scene) : Prop where
  wait_eq : t.script.wait = wait
  store_eq : t.store = store
  scene_eq : t.scene = scene

/-- A turn makes a call: the chunk moves on and the script waits as the outcome says. -/
structure Turn.Makes (t : Turn) (situation : Situation) (call : Call) (c : Chunk) (scene : Scene) :
    Prop where
  wait : t.script.wait = call.outcome.reason
  scene : t.scene = (call.action.perform situation scene).2
  stored : t.store.get? call.chunk =
    some { c with position := call.outcome.next c.actions.length call.place }

/-- What a turn can come to. -/
inductive Queued.Takes (situation : Situation) (q : Queued) (store : Store) (scene : Scene) (t : Turn) :
    Option Call → Prop where
  | held (hback : q.wait.isPending situation scene.host = true) (hidle : t.Idles q.wait store scene) :
      Takes situation q store scene t none
  | spent (hfree : ¬q.wait.isPending situation scene.host = true)
      (hspent : (store.get? q.chunk).bind Chunk.currentAction? = none) (hidle : t.Idles .none store scene) :
      Takes situation q store scene t none
  | calls {c : Chunk} {call : Call} (hfree : ¬q.wait.isPending situation scene.host = true)
      (hc : store.get? q.chunk = some c) (haction : c.currentAction? = some call.action)
      (hchunk : call.chunk = q.chunk) (hplace : call.place = c.position)
      (hwait : call.outcome ≠ .wait .none) (hmakes : t.Makes situation call c scene) :
      Takes situation q store scene t (some call)

theorem Queued.turn_of_isPending (h : q.wait.isPending situation scene.host = true) :
    q.turn situation store scene = ⟨{ q with heldTicks := q.heldTicks + 1 }, store, scene, false⟩ := by
  have hne : q.wait ≠ .none := by
    intro hnone
    rw [hnone] at h
    cases h
  rw [turn, if_neg hne, if_pos h]

/-- A script that is not held back acts, whether or not a wait is over. -/
theorem Queued.turn_of_not_isPending (h : ¬q.wait.isPending situation scene.host = true) (store : Store) :
    ∃ changed, q.turn situation store scene = { q with wait := .none }.act situation store scene changed := by
  unfold turn
  split
  · next hnone =>
    have hq : { q with wait := .none } = q := by rw [← hnone]
    exact ⟨false, by rw [hq]⟩
  · exact ⟨true, rfl⟩

theorem Chunk.advance_of_currentAction? {action : Action} (h : c.currentAction? = some action) :
    c.advance = { c with position := c.position + 1 } := by
  have hlt : ¬c.actions.length ≤ c.position := Nat.not_le.2 (List.getElem?_eq_some_iff.1 h).1
  rw [advance, isFinished, decide_eq_false hlt]
  rfl

theorem Queued.act_makes {action : Action} {changed : Bool} (hwait : q.wait = .none)
    (hc : store.get? q.chunk = some c) (haction : c.currentAction? = some action) :
    (q.act situation store scene changed).Makes situation
      ⟨q.chunk, c.position, action, (action.perform situation scene).1⟩ c scene := by
  have hcurrent : (store.get? q.chunk).bind Chunk.currentAction? = some action := by
    rw [hc]
    exact haction
  have hadvance := Chunk.advance_of_currentAction? haction
  unfold act
  rw [hcurrent]
  dsimp only
  split <;> next hperform =>
    constructor <;>
      simp [hperform, hwait, hc, Outcome.reason, Outcome.next, hadvance, Chunk.skipToEnd]

theorem Queued.turn_takes (situation : Situation) (q : Queued) (store : Store) (scene : Scene) :
    q.Takes situation store scene (q.turn situation store scene) (q.call? situation store scene) := by
  by_cases hpending : q.wait.isPending situation scene.host = true
  · rw [call?, if_pos hpending, turn_of_isPending hpending]
    exact .held hpending ⟨rfl, rfl, rfl⟩
  · obtain ⟨changed, hturn⟩ := turn_of_not_isPending hpending store
    rw [call?, if_neg hpending, hturn]
    cases hcurrent : (store.get? q.chunk).bind Chunk.currentAction? with
    | none =>
        have hnone : ((store.get? q.chunk).bind fun c => c.currentAction?.map fun action =>
            (⟨q.chunk, c.position, action, (action.perform situation scene).1⟩ : Call)) = none := by
          cases hc : store.get? q.chunk with
          | none => rfl
          | some c => simpa [hc] using hcurrent
        rw [hnone, act, hcurrent]
        exact .spent hpending hcurrent ⟨rfl, rfl, rfl⟩
    | some action =>
        obtain ⟨c, hc, haction⟩ := Option.bind_eq_some_iff.1 hcurrent
        rw [hc, Option.bind_some, haction, Option.map_some]
        exact .calls hpending hc haction rfl rfl (action.perform_ne_wait_none situation scene)
          (act_makes rfl hc haction)

/-- The calls account for all that a round does to the scene. -/
theorem playQueue_scene (situation : Situation) (queue : List Queued) (store : Store) (scene : Scene) :
    (playQueue situation queue store scene).scene =
      (calls situation queue store scene).foldl (fun s call => (call.action.perform situation s).2) scene := by
  induction queue generalizing store scene with
  | nil => rfl
  | cons q queue ih =>
      rw [playQueue, calls, List.foldl_append]
      dsimp only
      rw [ih]
      congr 1
      have htakes := q.turn_takes situation store scene
      generalize q.call? situation store scene = call? at htakes ⊢
      cases htakes with
      | held _ hidle => exact hidle.scene_eq
      | spent _ _ hidle => exact hidle.scene_eq
      | calls _ _ _ _ _ _ hmakes => exact hmakes.scene

/-! ### Rounds -/

theorem calls_append (situation : Situation) (queue queue' : List Queued) (store : Store) (scene : Scene) :
    calls situation (queue ++ queue') store scene =
      calls situation queue store scene ++
        calls situation queue' (playQueue situation queue store scene).store
          (playQueue situation queue store scene).scene := by
  induction queue generalizing store scene with
  | nil => rfl
  | cons q queue ih =>
      rw [List.cons_append, calls, calls, ih, List.append_assoc]
      rfl

theorem playQueue_append (situation : Situation) (queue queue' : List Queued) (store : Store)
    (scene : Scene) :
    let first := playQueue situation queue store scene
    let rest := playQueue situation queue' first.store first.scene
    (playQueue situation (queue ++ queue') store scene).queue = first.queue ++ rest.queue ∧
      (playQueue situation (queue ++ queue') store scene).store = rest.store := by
  induction queue generalizing store scene with
  | nil => exact ⟨rfl, rfl⟩
  | cons q queue ih =>
      obtain ⟨hqueue, hstore⟩ := ih (q.turn situation store scene).store (q.turn situation store scene).scene
      exact ⟨congrArg (_ :: ·) hqueue, hstore⟩

theorem scene_playQueue_append (situation : Situation) (queue queue' : List Queued) (store : Store)
    (scene : Scene) :
    (playQueue situation (queue ++ queue') store scene).scene =
      (playQueue situation queue' (playQueue situation queue store scene).store
        (playQueue situation queue store scene).scene).scene := by
  simp only [playQueue_scene, calls_append, List.foldl_append]

theorem sceneAt?_append (situation : Situation) {queue : List Queued} (queue' : List Queued)
    (h : id ∉ queue.map Queued.chunk) (store : Store) (scene : Scene) :
    sceneAt? situation id (queue ++ queue') store scene =
      sceneAt? situation id queue' (playQueue situation queue store scene).store
        (playQueue situation queue store scene).scene := by
  induction queue generalizing store scene with
  | nil => rfl
  | cons q queue ih =>
      rw [List.map_cons, List.mem_cons, not_or] at h
      rw [List.cons_append, sceneAt?, if_neg (Ne.symm h.1), ih h.2]
      rfl

theorem Queued.chunk_of_call? {call : Call} (h : q.call? situation store scene = some call) :
    call.chunk = q.chunk := by
  have htakes := q.turn_takes situation store scene
  rw [h] at htakes
  cases htakes with
  | calls _ _ _ hchunk _ _ _ => exact hchunk

theorem Queued.outcome_of_call? {call : Call} (h : q.call? situation store scene = some call) :
    call.outcome = (call.action.perform situation scene).1 := by
  unfold call? at h
  split at h
  · cases h
  · obtain ⟨c, -, hcall⟩ := Option.bind_eq_some_iff.1 h
    obtain ⟨action, -, rfl⟩ := Option.map_eq_some_iff.1 hcall
    rfl

theorem chunk_of_mem_calls {call : Call} {queue : List Queued}
    (h : call ∈ calls situation queue store scene) : call.chunk ∈ queue.map Queued.chunk := by
  induction queue generalizing store scene with
  | nil => cases h
  | cons q queue ih =>
      rw [calls, List.mem_append] at h
      rcases h with h | h
      · rw [Queued.chunk_of_call? (Option.mem_toList.1 h)]
        exact List.mem_cons_self
      · exact List.mem_cons_of_mem _ (ih h)

theorem calls_of_not_mem {queue : List Queued} (h : id ∉ queue.map Queued.chunk) :
    (calls situation queue store scene).filter (·.chunk = id) = [] := by
  rw [List.filter_eq_nil_iff]
  intro call hcall heq
  exact h (of_decide_eq_true heq ▸ chunk_of_mem_calls hcall)

theorem sceneAt?_of_not_mem {queue : List Queued} (h : id ∉ queue.map Queued.chunk) :
    sceneAt? situation id queue store scene = none := by
  rw [← List.append_nil queue, sceneAt?_append situation [] h]
  rfl

theorem playQueue_get?_of_not_mem {queue : List Queued} (h : id ∉ queue.map Queued.chunk) :
    (playQueue situation queue store scene).store.get? id = store.get? id :=
  Library.playQueue_get?_of_not_mem ⟨store, ∅⟩ h

/-! ### A chunk that is queued once -/

/-- The queue holds one script of the chunk, and it is this one. -/
structure Alone (id : ChunkId) (q : Queued) (before after : List Queued) : Prop where
  chunk : q.chunk = id
  before : id ∉ before.map Queued.chunk
  after : id ∉ after.map Queued.chunk

/-- A round as the only script of a chunk sees it. Its turn comes after the scripts before it, and nothing
else touches its chunk. -/
theorem Alone.playQueue {before after : List Queued} (h : Alone id q before after) (situation : Situation)
    (store : Store) (scene : Scene) :
    ∃ store' scene' first rest, store'.get? id = store.get? id ∧
      sceneAt? situation id (before ++ q :: after) store scene = some scene' ∧
      (calls situation (before ++ q :: after) store scene).filter (·.chunk = id) =
        (q.call? situation store' scene').toList ∧
      (playQueue situation (before ++ q :: after) store scene).store.get? id =
        (q.turn situation store' scene').store.get? id ∧
      (playQueue situation (before ++ q :: after) store scene).queue =
        first ++ (q.turn situation store' scene').script :: rest ∧
      Alone id (q.turn situation store' scene').script first rest := by
  obtain ⟨hqueue, hstore⟩ := playQueue_append situation before (q :: after) store scene
  refine ⟨_, _, _, _, playQueue_get?_of_not_mem h.before, ?_, ?_, ?_, hqueue, ?_⟩
  · rw [sceneAt?_append situation _ h.before, sceneAt?, if_pos h.chunk]
  · rw [calls_append, List.filter_append, calls_of_not_mem h.before, calls, List.filter_append,
      calls_of_not_mem h.after, List.nil_append, List.append_nil, List.filter_eq_self]
    intro call hcall
    rw [Queued.chunk_of_call? (Option.mem_toList.1 hcall)]
    exact decide_eq_true h.chunk
  · rw [hstore]
    exact playQueue_get?_of_not_mem h.after
  · constructor
    · exact (q.turn_chunk situation _ _).trans h.chunk
    · rw [playQueue_chunks]
      exact h.before
    · rw [playQueue_chunks]
      exact h.after

end Adventure.Script
