import Adventure.Proofs.Script.Calls
/-! How a chunk that is queued once plays out. It performs its actions in order, each of them once and at
most one in a tick; it stands still while it waits, and leaves the queue when it is done. Here the ticks
are taken as they show themselves, and a script moves from phase to phase. -/
namespace Adventure.Script

/-! ### What ticks show of a chunk -/

/-- What one tick shows of a chunk. -/
structure Beat where
  situation : Situation
  /-- What its script finds at its turn. -/
  scene? : Option Scene
  calls : List Call
  /-- Whether the chunk is queued after the tick. -/
  queued : Bool
  /-- The chunk after the tick. -/
  chunk? : Option Chunk
  /-- What the register holds for its signature after the tick. -/
  progress? : Option Progress

/-- At the script's turn the reason to wait is still there. -/
def Beat.HoldsBack (b : Beat) (reason : Wait) : Prop :=
  ∃ scene ∈ b.scene?, reason.isPending b.situation scene.host = true

/-- The actions that are done: all that were performed but those that are to be tried again. -/
def done (log : List Beat) : List Call :=
  (log.flatMap Beat.calls).filter (·.outcome ≠ .hold)

/-- The chunk ends with the action. -/
def Outcome.Stops (o : Outcome) : Prop :=
  o = .stop ∨ o = .invalid

def Stopped (log : List Beat) : Prop :=
  ∃ call ∈ done log, call.outcome.Stops

def Finished (c : Chunk) (log : List Beat) : Prop :=
  (done log).length = c.actions.length ∨ Stopped log

/-- An action has asked the script to wait, and in every tick since then the reason was still there. -/
inductive WaitsFor (reason : Wait) : List Beat → Prop where
  | asked {log : List Beat} {b : Beat} {call : Call} (hcall : call ∈ b.calls)
      (hwait : call.outcome = .wait reason) : WaitsFor reason (log ++ [b])
  | still {log : List Beat} {b : Beat} (h : WaitsFor reason log) (hback : b.HoldsBack reason) :
      WaitsFor reason (log ++ [b])

/-- The ticks of a chunk that is queued once. -/
structure PlaysOut (c : Chunk) (log : List Beat) : Prop where
  once_a_tick : ∀ b ∈ log, b.calls.length ≤ 1
  own_actions : ∀ b ∈ log, ∀ call ∈ b.calls, c.actions[call.place]? = some call.action
  in_order : ∃ m ≤ c.actions.length, (done log).map Call.place = List.range m
  /-- The next action is performed as soon as nothing holds the script back. -/
  goes_on : ∀ {earlier b later}, log = earlier ++ b :: later → ¬Finished c earlier →
    (∀ reason, WaitsFor reason earlier → ¬b.HoldsBack reason) →
      ∃ call, b.calls = [call] ∧ call.place = (done earlier).length
  stands_still : ∀ {earlier b later reason}, log = earlier ++ b :: later → WaitsFor reason earlier →
    b.HoldsBack reason → b.calls = []
  resumes : ∀ {earlier b later reason}, log = earlier ++ b :: later → WaitsFor reason earlier →
    ¬b.HoldsBack reason → (done earlier).length < c.actions.length →
      ∃ call, b.calls = [call] ∧ call.place = (done earlier).length
  leaves : ∀ {earlier b later}, log = earlier ++ b :: later →
    (b.queued = false ↔ Finished c (earlier ++ [b]) ∧ ∀ reason, ¬WaitsFor reason (earlier ++ [b]))
  /-- In the tick in which the script leaves, its chunk is rewound, or retired if it runs once. -/
  rewound : ∀ {earlier b later}, log = earlier ++ b :: later → (∀ b' ∈ earlier, b'.queued = true) →
    b.queued = false → c.once = false → b.chunk? = some c.rewind
  retired : ∀ {earlier b later}, log = earlier ++ b :: later → (∀ b' ∈ earlier, b'.queued = true) →
    b.queued = false → c.once = true → b.chunk? = some c.retire ∧ b.progress? = some .removed

variable {c : Chunk} {b : Beat} {past log : List Beat} {reason : Wait}

/-! ### The actions done -/

theorem done_of_calls_nil (h : b.calls = []) : done (past ++ [b]) = done past := by
  simp [done, h]

theorem done_of_hold {call : Call} (h : b.calls = [call]) (hhold : call.outcome = .hold) :
    done (past ++ [b]) = done past := by
  simp [done, h, hhold]

theorem done_of_ne_hold (past : List Beat) {call : Call} (h : b.calls = [call]) (hhold : call.outcome ≠ .hold) :
    done (past ++ [b]) = done past ++ [call] := by
  simp [done, h, hhold]

theorem stopped_of_done_eq (h : done log = done past) : Stopped log ↔ Stopped past := by
  rw [Stopped, Stopped, h]

theorem stopped_of_done_append {call : Call} (h : done log = done past ++ [call]) :
    Stopped log ↔ Stopped past ∨ call.outcome.Stops := by
  simp only [Stopped, h, List.mem_append, List.mem_singleton, or_and_right, exists_or, exists_eq_left]

/-! ### Waiting -/

theorem not_waitsFor_nil : ¬WaitsFor reason [] := by
  intro h
  generalize hlog : [] = log at h
  cases h <;> simp at hlog

theorem waitsFor_append_singleton : WaitsFor reason (past ++ [b]) ↔
    (∃ call ∈ b.calls, call.outcome = .wait reason) ∨ WaitsFor reason past ∧ b.HoldsBack reason := by
  constructor
  · intro h
    generalize hlog : past ++ [b] = log at h
    cases h with
    | asked hcall hwait =>
        obtain ⟨-, hb⟩ := List.append_inj' hlog rfl
        cases hb
        exact .inl ⟨_, hcall, hwait⟩
    | still h hback =>
        obtain ⟨rfl, hb⟩ := List.append_inj' hlog rfl
        cases hb
        exact .inr ⟨h, hback⟩
  · rintro (⟨call, hcall, hwait⟩ | ⟨h, hback⟩)
    · exact .asked hcall hwait
    · exact .still h hback

theorem waitsFor_of_calls_nil (h : b.calls = []) :
    WaitsFor reason (past ++ [b]) ↔ WaitsFor reason past ∧ b.HoldsBack reason := by
  simp [waitsFor_append_singleton, h]

theorem waitsFor_of_calls {call : Call} (h : b.calls = [call]) : WaitsFor reason (past ++ [b]) ↔
    call.outcome = .wait reason ∨ WaitsFor reason past ∧ b.HoldsBack reason := by
  simp [waitsFor_append_singleton, h]

/-- Once nothing holds the script back, what it waited for before no longer counts. -/
theorem not_waitsFor_of_free {wait : Wait} (hwaits : ∀ reason, WaitsFor reason past ↔ wait = reason ∧ reason ≠ .none)
    (hfree : ¬b.HoldsBack wait) (reason : Wait) : ¬(WaitsFor reason past ∧ b.HoldsBack reason) := by
  rintro ⟨hwait, hback⟩
  obtain ⟨rfl, -⟩ := (hwaits reason).1 hwait
  exact hfree hback

theorem Outcome.reason_eq_iff {o : Outcome} (h : o ≠ .wait .none) :
    o = .wait reason ↔ o.reason = reason ∧ reason ≠ .none := by
  cases o with
  | wait r =>
      rw [Outcome.wait.injEq]
      constructor
      · rintro rfl
        exact ⟨rfl, fun hnone => h (congrArg _ hnone)⟩
      · rintro ⟨rfl, -⟩
        rfl
  | _ => simpa [Outcome.reason] using fun hnone => Eq.symm hnone

theorem Outcome.not_stops {o : Outcome} {length place : Nat}
    (h : o.next length place < length ∨ o.reason ≠ .none) : ¬o.Stops := by
  rintro (rfl | rfl) <;> simp [Outcome.next, Outcome.reason] at h

/-! ### Phases of a run -/

/-- The script is queued, with its chunk at a place, or has left the queue. -/
inductive Phase where
  | queued (place : Nat) (wait : Wait)
  | gone

/-- The chunk leaves the queue and is rewound or retired. -/
structure Beat.Ends (b : Beat) (c : Chunk) : Prop where
  queued : b.queued = false
  chunk : b.chunk? = some c.finish
  removed : c.once = true → b.progress? = some .removed

/-- The only call of a tick is for the action at a place. -/
structure Beat.Acts (b : Beat) (c : Chunk) (place : Nat) (call : Call) : Prop where
  calls : b.calls = [call]
  place_eq : call.place = place
  action : c.actions[place]? = some call.action
  wait : call.outcome ≠ .wait .none

/-- What one tick makes of a script. -/
inductive Phase.Step (c : Chunk) (b : Beat) : Phase → Phase → Prop where
  | held {place : Nat} {wait : Wait} (hback : b.HoldsBack wait) (hcalls : b.calls = [])
      (hqueued : b.queued = true) : Step c b (.queued place wait) (.queued place wait)
  | acts {place : Nat} {wait : Wait} (call : Call) (hback : ¬b.HoldsBack wait) (hacts : b.Acts c place call)
      (hqueued : b.queued = true)
      (hleft : call.outcome.next c.actions.length place < c.actions.length ∨ call.outcome.reason ≠ .none) :
      Step c b (.queued place wait)
        (.queued (call.outcome.next c.actions.length place) call.outcome.reason)
  | ends {place : Nat} {wait : Wait} (call : Call) (hback : ¬b.HoldsBack wait) (hacts : b.Acts c place call)
      (hlast : c.actions.length ≤ call.outcome.next c.actions.length place)
      (hwait : call.outcome.reason = .none) (hends : b.Ends c) : Step c b (.queued place wait) .gone
  | spent {place : Nat} {wait : Wait} (hback : ¬b.HoldsBack wait) (hplace : c.actions.length ≤ place)
      (hcalls : b.calls = []) (hends : b.Ends c) : Step c b (.queued place wait) .gone
  | gone (hscene : b.scene? = none) (hcalls : b.calls = []) (hqueued : b.queued = false) :
      Step c b .gone .gone

/-- The ticks of a script one after another. -/
inductive Phase.Run (c : Chunk) : Phase → List Beat → Phase → Prop where
  | nil {φ : Phase} : Run c φ [] φ
  | cons {φ φ' φ'' : Phase} {b : Beat} {log : List Beat} (hstep : Phase.Step c b φ φ')
      (hrun : Run c φ' log φ'') : Run c φ (b :: log) φ''

/-- What the past ticks say about the phase. -/
inductive Phase.Told (c : Chunk) (past : List Beat) : Phase → Prop where
  | queued {place : Nat} {wait : Wait} (hplace : place = (done past).length) (hstopped : ¬Stopped past)
      (hwaits : ∀ reason, WaitsFor reason past ↔ wait = reason ∧ reason ≠ .none) :
      Told c past (.queued place wait)
  | gone (hfinished : Finished c past) (hwaits : ∀ reason, ¬WaitsFor reason past)
      (hleft : ∃ b ∈ past, b.queued = false) : Told c past .gone

/-- The actions done are the first ones of the chunk, in order. -/
structure InOrder (c : Chunk) (past : List Beat) : Prop where
  places : (done past).map Call.place = List.range (done past).length
  length_le : (done past).length ≤ c.actions.length

variable {φ φ' : Phase}

theorem InOrder.nil (c : Chunk) : InOrder c [] :=
  ⟨rfl, Nat.zero_le _⟩

theorem InOrder.of_done_eq (h : InOrder c past) (hdone : done log = done past) : InOrder c log := by
  constructor
  · rw [hdone]
    exact h.places
  · rw [hdone]
    exact h.length_le

theorem InOrder.acts {call : Call} (h : InOrder c past) (hacts : b.Acts c (done past).length call) :
    InOrder c (past ++ [b]) := by
  by_cases hhold : call.outcome = .hold
  · exact h.of_done_eq (done_of_hold hacts.calls hhold)
  · have hdone := done_of_ne_hold past hacts.calls hhold
    constructor
    · rw [hdone, List.map_append, h.places, List.length_append, List.length_singleton, List.range_succ,
        List.map_singleton, hacts.place_eq]
    · rw [hdone, List.length_append, List.length_singleton]
      exact (List.getElem?_eq_some_iff.1 hacts.action).1

theorem InOrder.step (h : InOrder c past) (hφ : φ.Told c past) (hstep : Phase.Step c b φ φ') :
    InOrder c (past ++ [b]) := by
  cases hφ with
  | gone =>
      cases hstep with
      | gone _ hcalls _ => exact h.of_done_eq (done_of_calls_nil hcalls)
  | queued hplace =>
      cases hstep with
      | held _ hcalls _ => exact h.of_done_eq (done_of_calls_nil hcalls)
      | spent _ _ hcalls _ => exact h.of_done_eq (done_of_calls_nil hcalls)
      | acts _ _ hacts _ _ => exact h.acts (hplace ▸ hacts)
      | ends _ _ hacts _ _ _ => exact h.acts (hplace ▸ hacts)

theorem Phase.Told.nil (c : Chunk) : (Phase.queued 0 .none).Told c [] := by
  refine .queued rfl ?_ fun reason => ?_
  · rintro ⟨call, hcall, -⟩
    cases hcall
  · refine iff_of_false not_waitsFor_nil ?_
    rintro ⟨rfl, hne⟩
    exact hne rfl

/-- After an action that neither stops the chunk nor is the last one, as many actions are done as the
chunk's place says. -/
theorem length_done_of_acts {call : Call} (hacts : b.Acts c (done past).length call)
    (hstops : ¬call.outcome.Stops) :
    (done (past ++ [b])).length = call.outcome.next c.actions.length (done past).length := by
  by_cases hhold : call.outcome = .hold
  · rw [done_of_hold hacts.calls hhold, hhold]
    rfl
  · rw [done_of_ne_hold past hacts.calls hhold, List.length_append, List.length_singleton]
    cases houtcome : call.outcome <;> simp_all [Outcome.next, Outcome.Stops]

theorem stopped_of_acts {call : Call} {place : Nat} (hacts : b.Acts c place call) :
    Stopped (past ++ [b]) ↔ Stopped past ∨ call.outcome.Stops := by
  by_cases hhold : call.outcome = .hold
  · rw [stopped_of_done_eq (done_of_hold hacts.calls hhold), hhold]
    simp [Outcome.Stops]
  · exact stopped_of_done_append (done_of_ne_hold past hacts.calls hhold)

theorem Phase.Told.held {place : Nat} {wait : Wait} (hφ : (Phase.queued place wait).Told c past)
    (hcalls : b.calls = []) (hback : b.HoldsBack wait) : (Phase.queued place wait).Told c (past ++ [b]) := by
  cases hφ with
  | queued hplace hstopped hwaits =>
      refine .queued ?_ ?_ fun reason => ?_
      · rw [done_of_calls_nil hcalls, hplace]
      · rwa [stopped_of_done_eq (done_of_calls_nil hcalls)]
      · rw [waitsFor_of_calls_nil hcalls, hwaits]
        constructor
        · exact fun h => h.1
        · rintro ⟨rfl, hne⟩
          exact ⟨⟨rfl, hne⟩, hback⟩

theorem Phase.Told.acts {place : Nat} {wait : Wait} {call : Call} (hφ : (Phase.queued place wait).Told c past)
    (hfree : ¬b.HoldsBack wait) (hacts : b.Acts c place call) (hstops : ¬call.outcome.Stops) :
    (Phase.queued (call.outcome.next c.actions.length place) call.outcome.reason).Told c (past ++ [b]) := by
  cases hφ with
  | queued hplace hstopped hwaits =>
      subst hplace
      refine .queued (length_done_of_acts hacts hstops).symm ?_ fun reason => ?_
      · rw [stopped_of_acts hacts]
        exact not_or.2 ⟨hstopped, hstops⟩
      · rw [waitsFor_of_calls hacts.calls, Outcome.reason_eq_iff hacts.wait]
        exact or_iff_left (not_waitsFor_of_free hwaits hfree reason)

theorem Phase.Told.ends {place : Nat} {wait : Wait} {call : Call} (hφ : (Phase.queued place wait).Told c past)
    (horder : InOrder c past) (hfree : ¬b.HoldsBack wait) (hacts : b.Acts c place call)
    (hlast : c.actions.length ≤ call.outcome.next c.actions.length place)
    (hwait : call.outcome.reason = .none) (hqueued : b.queued = false) : Phase.gone.Told c (past ++ [b]) := by
  cases hφ with
  | queued hplace _ hwaits =>
      subst hplace
      refine .gone ?_ (fun reason hreason => ?_) ⟨b, List.mem_append_right _ List.mem_cons_self, hqueued⟩
      · by_cases hstops : call.outcome.Stops
        · exact .inr ((stopped_of_acts hacts).2 (.inr hstops))
        · refine .inl (Nat.le_antisymm (horder.acts hacts).length_le ?_)
          rwa [length_done_of_acts hacts hstops]
      · rw [waitsFor_of_calls hacts.calls, Outcome.reason_eq_iff hacts.wait, hwait] at hreason
        rcases hreason with ⟨rfl, hne⟩ | hreason
        · exact hne rfl
        · exact not_waitsFor_of_free hwaits hfree reason hreason

theorem Phase.Told.spent {place : Nat} {wait : Wait} (hφ : (Phase.queued place wait).Told c past)
    (horder : InOrder c past) (hfree : ¬b.HoldsBack wait) (hplace : c.actions.length ≤ place)
    (hcalls : b.calls = []) (hqueued : b.queued = false) : Phase.gone.Told c (past ++ [b]) := by
  cases hφ with
  | queued hdone _ hwaits =>
      subst hdone
      refine .gone (.inl ?_) (fun reason hreason => ?_) ⟨b, List.mem_append_right _ List.mem_cons_self, hqueued⟩
      · rw [done_of_calls_nil hcalls]
        exact Nat.le_antisymm horder.length_le hplace
      · exact not_waitsFor_of_free hwaits hfree reason ((waitsFor_of_calls_nil hcalls).1 hreason)

theorem Phase.Told.gone_again (hφ : Phase.gone.Told c past) (hcalls : b.calls = []) :
    Phase.gone.Told c (past ++ [b]) := by
  cases hφ with
  | gone hfinished hwaits hleft =>
      obtain ⟨b', hb', hqueued⟩ := hleft
      refine .gone ?_ (fun reason hwait => ?_) ⟨b', List.mem_append_left _ hb', hqueued⟩
      · rwa [Finished, done_of_calls_nil hcalls, stopped_of_done_eq (done_of_calls_nil hcalls)]
      · exact hwaits reason ((waitsFor_of_calls_nil hcalls).1 hwait).1

theorem Phase.Told.step (hφ : φ.Told c past) (horder : InOrder c past) (hstep : Phase.Step c b φ φ') :
    φ'.Told c (past ++ [b]) := by
  cases hstep with
  | held hback hcalls _ => exact hφ.held hcalls hback
  | acts call hfree hacts _ hleft => exact hφ.acts hfree hacts (Outcome.not_stops hleft)
  | ends call hfree hacts hlast hwait hends => exact hφ.ends horder hfree hacts hlast hwait hends.queued
  | spent hfree hplace hcalls hends => exact hφ.spent horder hfree hplace hcalls hends.queued
  | gone _ hcalls _ => exact hφ.gone_again hcalls

theorem Phase.Run.told (h : Phase.Run c φ log φ') (hφ : φ.Told c past) (horder : InOrder c past) :
    φ'.Told c (past ++ log) ∧ InOrder c (past ++ log) := by
  induction h generalizing past with
  | nil =>
      rw [List.append_nil]
      exact ⟨hφ, horder⟩
  | cons hstep _ ih =>
      rw [List.append_cons]
      exact ih (hφ.step horder hstep) (horder.step hφ hstep)

theorem Phase.Run.append_cons {earlier later : List Beat} (h : Phase.Run c φ (earlier ++ b :: later) φ') :
    ∃ φ₁ φ₂, Phase.Run c φ earlier φ₁ ∧ Phase.Step c b φ₁ φ₂ := by
  induction earlier generalizing φ with
  | nil =>
      cases h with
      | cons hstep _ => exact ⟨_, _, .nil, hstep⟩
  | cons b' earlier ih =>
      cases h with
      | cons hstep hrun =>
          obtain ⟨φ₁, φ₂, hearlier, hb⟩ := ih hrun
          exact ⟨φ₁, φ₂, .cons hstep hearlier, hb⟩

/-! ### What every tick of a run does -/

theorem not_holdsBack_none (b : Beat) : ¬b.HoldsBack .none := by
  rintro ⟨scene, -, hpending⟩
  cases hpending

theorem Phase.Step.calls (hstep : Phase.Step c b φ φ') :
    b.calls = [] ∨ ∃ place call, b.Acts c place call := by
  cases hstep with
  | held _ hcalls _ => exact .inl hcalls
  | spent _ _ hcalls _ => exact .inl hcalls
  | gone _ hcalls _ => exact .inl hcalls
  | acts call _ hacts _ _ => exact .inr ⟨_, call, hacts⟩
  | ends call _ hacts _ _ _ => exact .inr ⟨_, call, hacts⟩

/-- A script that is queued and finished waits for something. -/
theorem Phase.Step.queued_cases (hstep : Phase.Step c b φ φ') :
    match φ' with
    | .queued place wait => b.queued = true ∧ (place < c.actions.length ∨ wait ≠ .none)
    | .gone => b.queued = false := by
  cases hstep with
  | held hback _ hqueued =>
      refine ⟨hqueued, .inr ?_⟩
      rintro rfl
      exact not_holdsBack_none b hback
  | acts _ _ _ hqueued hleft => exact ⟨hqueued, hleft⟩
  | ends _ _ _ _ _ hends => exact hends.queued
  | spent _ _ _ hends => exact hends.queued
  | gone _ _ hqueued => exact hqueued

theorem Phase.Step.goes_on (hstep : Phase.Step c b φ φ') (hφ : φ.Told c past) (horder : InOrder c past)
    (hfinished : ¬Finished c past) (hfree : ∀ reason, WaitsFor reason past → ¬b.HoldsBack reason) :
    ∃ call, b.calls = [call] ∧ call.place = (done past).length := by
  cases hφ with
  | gone hgone _ _ => exact absurd hgone hfinished
  | queued hplace _ hwaits =>
      subst hplace
      cases hstep with
      | held hback _ _ =>
          refine absurd hback (hfree _ ((hwaits _).2 ⟨rfl, ?_⟩))
          rintro rfl
          exact not_holdsBack_none b hback
      | spent _ hplace _ _ => exact absurd (.inl (Nat.le_antisymm horder.length_le hplace)) hfinished
      | acts call _ hacts _ _ => exact ⟨call, hacts.calls, hacts.place_eq⟩
      | ends call _ hacts _ _ _ => exact ⟨call, hacts.calls, hacts.place_eq⟩

theorem Phase.Step.stands_still (hstep : Phase.Step c b φ φ') (hφ : φ.Told c past)
    (hwait : WaitsFor reason past) (hheld : b.HoldsBack reason) : b.calls = [] := by
  cases hφ with
  | gone _ hwaits _ => exact absurd hwait (hwaits reason)
  | queued _ _ hwaits =>
      obtain ⟨rfl, -⟩ := (hwaits reason).1 hwait
      cases hstep with
      | held _ hcalls _ => exact hcalls
      | acts _ hback _ _ _ => exact absurd hheld hback
      | ends _ hback _ _ _ _ => exact absurd hheld hback
      | spent hback _ _ _ => exact absurd hheld hback

theorem Phase.Told.waitsFor_unique {reason' : Wait} (hφ : φ.Told c past) (h : WaitsFor reason past)
    (h' : WaitsFor reason' past) : reason' = reason := by
  cases hφ with
  | gone _ hwaits _ => exact absurd h (hwaits reason)
  | queued _ _ hwaits => exact ((hwaits reason').1 h').1.symm.trans ((hwaits reason).1 h).1

theorem Phase.Told.not_stopped (hφ : φ.Told c past) (h : WaitsFor reason past) : ¬Stopped past := by
  cases hφ with
  | gone _ hwaits _ => exact absurd h (hwaits reason)
  | queued _ hstopped _ => exact hstopped

theorem Phase.Step.leaves_iff (hstep : Phase.Step c b φ φ') (hφ' : φ'.Told c (past ++ [b])) :
    b.queued = false ↔ Finished c (past ++ [b]) ∧ ∀ reason, ¬WaitsFor reason (past ++ [b]) := by
  have hqueued := hstep.queued_cases
  cases hφ' with
  | gone hfinished hwaits _ => exact iff_of_true hqueued ⟨hfinished, hwaits⟩
  | queued hplace hstopped hwaits =>
      refine iff_of_false (by simp [hqueued.1]) ?_
      rintro ⟨hfinished, hnone⟩
      rcases hqueued.2 with hlt | hne
      · rw [hplace, hfinished.resolve_right hstopped] at hlt
        exact Nat.lt_irrefl _ hlt
      · exact hnone _ ((hwaits _).2 ⟨rfl, hne⟩)

theorem Phase.Step.ends_of_queued (hstep : Phase.Step c b φ φ') (hφ : φ.Told c past)
    (hall : ∀ b' ∈ past, b'.queued = true) (hb : b.queued = false) : b.Ends c := by
  cases hstep with
  | held _ _ hqueued => simp [hqueued] at hb
  | acts _ _ _ hqueued _ => simp [hqueued] at hb
  | ends _ _ _ _ _ hends => exact hends
  | spent _ _ _ hends => exact hends
  | gone _ _ _ =>
      cases hφ with
      | gone _ _ hleft =>
          obtain ⟨b', hb', hqueued⟩ := hleft
          simp [hall b' hb'] at hqueued

/-- What the ticks before one of them say, and what this one makes of it. -/
theorem Phase.Run.split {earlier later : List Beat} (h : Phase.Run c (.queued 0 .none) log φ)
    (hlog : log = earlier ++ b :: later) : ∃ φ₁ φ₂, φ₁.Told c earlier ∧ InOrder c earlier ∧
      Phase.Step c b φ₁ φ₂ ∧ φ₂.Told c (earlier ++ [b]) := by
  subst hlog
  obtain ⟨φ₁, φ₂, hearlier, hstep⟩ := h.append_cons
  obtain ⟨hφ, horder⟩ := hearlier.told (.nil c) (.nil c)
  rw [List.nil_append] at hφ horder
  exact ⟨φ₁, φ₂, hφ, horder, hstep, hφ.step horder hstep⟩

theorem Phase.Run.playsOut (h : Phase.Run c (.queued 0 .none) log φ) : PlaysOut c log := by
  have hgoes : ∀ {earlier b later}, log = earlier ++ b :: later → ¬Finished c earlier →
      (∀ reason, WaitsFor reason earlier → ¬b.HoldsBack reason) →
        ∃ call, b.calls = [call] ∧ call.place = (done earlier).length := by
    intro earlier b later hlog hfinished hfree
    obtain ⟨φ₁, φ₂, hφ, horder, hstep, -⟩ := h.split hlog
    exact hstep.goes_on hφ horder hfinished hfree
  have hends : ∀ {earlier b later}, log = earlier ++ b :: later → (∀ b' ∈ earlier, b'.queued = true) →
      b.queued = false → b.Ends c := by
    intro earlier b later hlog hall hb
    obtain ⟨φ₁, φ₂, hφ, -, hstep, -⟩ := h.split hlog
    exact hstep.ends_of_queued hφ hall hb
  have hcalls : ∀ b ∈ log, b.calls = [] ∨ ∃ place call, b.Acts c place call := by
    intro b hb
    obtain ⟨earlier, later, hlog⟩ := List.append_of_mem hb
    obtain ⟨φ₁, φ₂, -, -, hstep, -⟩ := h.split hlog
    exact hstep.calls
  constructor
  case once_a_tick =>
    intro b hb
    rcases hcalls b hb with hnil | ⟨place, call, hacts⟩
    · rw [hnil]
      exact Nat.zero_le 1
    · rw [hacts.calls]
      exact Nat.le_refl 1
  case own_actions =>
    intro b hb call hcall
    rcases hcalls b hb with hnil | ⟨place, call', hacts⟩
    · rw [hnil] at hcall
      cases hcall
    · rw [hacts.calls, List.mem_singleton] at hcall
      rw [hcall, hacts.place_eq]
      exact hacts.action
  case in_order =>
    obtain ⟨-, horder⟩ := h.told (.nil c) (.nil c)
    exact ⟨_, horder.length_le, horder.places⟩
  case goes_on => exact hgoes
  case stands_still =>
    intro earlier b later reason hlog hwait hheld
    obtain ⟨φ₁, φ₂, hφ, -, hstep, -⟩ := h.split hlog
    exact hstep.stands_still hφ hwait hheld
  case resumes =>
    intro earlier b later reason hlog hwait hfree hlt
    obtain ⟨φ₁, φ₂, hφ, -, -, -⟩ := h.split hlog
    refine hgoes hlog ?_ fun reason' hwait' => ?_
    · rintro (heq | hstopped)
      · exact Nat.ne_of_lt hlt heq
      · exact hφ.not_stopped hwait hstopped
    · rwa [hφ.waitsFor_unique hwait hwait']
  case leaves =>
    intro earlier b later hlog
    obtain ⟨φ₁, φ₂, -, -, hstep, hφ'⟩ := h.split hlog
    exact hstep.leaves_iff hφ'
  case rewound =>
    intro earlier b later hlog hall hb honce
    rw [(hends hlog hall hb).chunk, Chunk.finish, honce]
    rfl
  case retired =>
    intro earlier b later hlog hall hb honce
    have hend := hends hlog hall hb
    refine ⟨?_, hend.removed honce⟩
    rw [hend.chunk, Chunk.finish, honce]
    rfl

end Adventure.Script
