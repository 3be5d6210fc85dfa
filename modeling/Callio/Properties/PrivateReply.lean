import Callio.Media.Outlines

/-! Whether an agent's private reply always has a supervisor who whispers to hear it, and the agent
is told when it ends. It has, but for five ways out of it: the only supervisor's leg is replaced,
the last agent leaves or fails to reconnect, the rules that follow the end of a private reply fail,
nobody is left to ask for one, or a worker that takes the room over stops half-way. -/

namespace Callio.RoomMedia

open Concurrency Fallible
open Rooms (Kind Mode)

/-! ## What the law says -/

/-- A private reply has a whispering listener. -/
def Heard (room : Room) : Prop :=
  room.agentPrivate = true → room.mode = .whisper ∧ room.supervisors ≠ [] ∧ room.agents ≠ []

namespace Operation

/-- The agent's own request. -/
def isRequest : Operation → Bool
  | setAgentPrivate _ => true
  | _ => false

/-- Its answer says whether it ended a private reply. -/
def tells : Operation → Bool
  | setSupervisorMode _ | removeSupervisor _ => true
  | _ => false

end Operation

/-- After the operation the room is as it should be, and who was private and isn't was told. -/
structure Told (s : Station) (op : Operation) (faults : List Bool) : Prop where
  heard : ∀ room, (s.perform op faults).1.room = some room → Heard room
  told : ∀ before after, s.room = some before → (s.perform op faults).1.room = some after →
    before.agentPrivate = true → after.agentPrivate = false → op.isRequest = false →
      op.tells = true ∧ (s.perform op faults).2 = some true

/-- The commands of `adopt` up to the first supervisor's leg. -/
def adoptCost (snap : Snapshot) : Nat :=
  snap.customer.toList.length + snap.pendingAgent.toList.length + snap.agents.length + 1

/-- The operation takes no way out of a private reply that nobody is told of. -/
def Orderly (s : Station) (faults : List Bool) : Operation → Prop
  | .answerAgent agentId =>
    -- The only agent reconnects.
    s.roomFor.agentPrivate = true → s.roomFor.agents.delete agentId = [] →
      true ∉ (faults.drop 2).take 3
  | .dropAgent agentId =>
    s.roomFor.agentPrivate = true →
      s.roomFor.agents.deleteAll (s.roomFor.agents.named agentId) ≠ []
  | .addSupervisor supervisorId =>
    s.roomFor.agentPrivate = true → s.roomFor.supervisors.delete supervisorId ≠ []
  | .supervisorAnswered supervisorId =>
    s.roomFor.agentPrivate = true → (s.roomFor.pendingSupervisors.get supervisorId).isSome = true →
      true ∉ faults.take 2 → s.roomFor.supervisors.delete supervisorId ≠ []
  | .setSupervisorMode mode =>
    s.roomFor.agentPrivate = true → mode ≠ .whisper → true ∉ faults.take (ruleCost s.roomFor)
  | .setAgentPrivate active =>
    active = true → s.roomFor.mode = .whisper → s.roomFor.supervisors ≠ [] → s.roomFor.agents ≠ []
  | .removeSupervisor supervisorId =>
    let leaving := s.roomFor.supervisors.named supervisorId
    s.roomFor.agentPrivate = true → s.roomFor.supervisors.deleteAll leaving = [] →
      true ∉ (faults.drop (s.roomFor.supervisors.removeCost leaving)).take
        (ruleCost { s.roomFor with supervisors := [] })
  | .adopt =>
    s.roomFor.customer = none → s.roomFor.agents = [] → s.roomFor.supervisors = [] →
      ∀ snap, s.saved = some snap → snap.agentPrivate = true → true ∉ faults.take (adoptCost snap)
  | _ => True

/-! ## One operation -/

/-- What is asked of the world an operation leaves. -/
def KeptAfter (op : Operation) (w : World) (answer : Option Bool) (w' : World) : Prop :=
  w'.held = .this → Heard w'.room ∧
    (w.room.agentPrivate = true → w'.room.agentPrivate = false → op.isRequest = false →
      op.tells = true ∧ answer = some true)

/-- However the operation ends, it leaves the world as it should. -/
def EndsKept (op : Operation) (w : Faulty World) : Prop :=
  op.code.Ends w (fun answer w' => KeptAfter op w.state (some answer) w'.state)
    fun w' => KeptAfter op w.state none w'.state

theorem told_iff_endsKept {s : Station} {op : Operation} {faults : List Bool}
    (h : s.room.isSome = true ∨ op.withoutRoom = none) :
    Told s op faults ↔ EndsKept op ⟨s.world, faults⟩ := by
  have hmatch : (if s.room.isNone then op.withoutRoom else none) = none := by
    rcases h with hroom | hop
    · rw [if_neg (by simpa using Option.isSome_iff_ne_none.mp hroom)]
    · rw [hop, ite_self]
  have hafter (answer : Option Bool) (w' : World)
      (hperform : s.perform op faults = (Station.after w', answer)) :
      Told s op faults ↔ KeptAfter op s.world answer w' := by
    constructor
    · intro htold hheld
      have hroom : (s.perform op faults).1.room = some w'.room := by
        rw [hperform]
        exact if_pos hheld
      refine ⟨htold.heard _ hroom, fun hbefore hnow hown => ?_⟩
      cases hs : s.room with
      | none =>
        -- A room made now has no private reply to end.
        simp [Station.world, Station.roomFor, hs] at hbefore
      | some before =>
        have hsame : s.world.room = before := by simp [Station.world, Station.roomFor, hs]
        have htells := htold.told before w'.room hs hroom (hsame ▸ hbefore) hnow hown
        rw [hperform] at htells
        exact htells
    · intro hkept
      have hheld {room : Room} (hroom : (s.perform op faults).1.room = some room) :
          w'.held = .this ∧ w'.room = room := by
        rw [hperform] at hroom
        by_cases hthis : w'.held = .this
        · have hsome : (Station.after w').room = some w'.room := if_pos hthis
          exact ⟨hthis, Option.some.inj (hsome.symm.trans hroom)⟩
        · have hnone : (Station.after w').room = none := if_neg hthis
          cases hnone.symm.trans hroom
      constructor
      · intro room hroom
        obtain ⟨hthis, rfl⟩ := hheld hroom
        exact (hkept hthis).1
      · intro before after hs hroom hbefore hnow hown
        obtain ⟨hthis, rfl⟩ := hheld hroom
        have hsame : s.world.room = before := by simp [Station.world, Station.roomFor, hs]
        rw [hperform]
        exact (hkept hthis).2 (hsame ▸ hbefore) hnow hown
  unfold EndsKept Ends
  cases hcode : op.code ⟨s.world, faults⟩ with
  | ok answer w' =>
    apply hafter
    simp only [Station.perform, hmatch, hcode]
  | error e w' =>
    apply hafter
    simp only [Station.perform, hmatch, hcode]

/-! ### The outline decides -/

namespace Outline

/-- As `Heard`, of the room's outline. -/
def Heard (o : Outline) : Prop :=
  o.agentPrivate = true → o.mode = .whisper ∧ o.supervisors ≠ [] ∧ o.agents ≠ []

/-- As `KeptAfter`, of the outlines before and after. -/
def Kept (op : Operation) (o : Outline) (answer : Option Bool) (o' : Outline) : Prop :=
  o'.held = .this → o'.Heard ∧ (o.agentPrivate = true → o'.agentPrivate = false →
    op.isRequest = false → op.tells = true ∧ answer = some true)

theorem Heard.kept {o o' : Outline} {op : Operation} {answer : Option Bool} (h : o'.Heard)
    (hsame : o'.agentPrivate = o.agentPrivate) : o.Kept op answer o' := by
  refine fun _ => ⟨h, fun hbefore hnow => ?_⟩
  rw [hsame, hbefore] at hnow
  cases hnow

end Outline

theorem heard_iff (w : World) : Heard w.room ↔ (outline w).Heard := by
  unfold Heard Outline.Heard outline
  simp only [ne_eq, Legs.ids_eq_nil]

theorem keptAfter_iff {op : Operation} {w w' : World} {answer : Option Bool} :
    KeptAfter op w answer w' ↔ (outline w).Kept op answer (outline w') := by
  unfold KeptAfter Outline.Kept
  rw [heard_iff]
  rfl

section Operations

variable {w : Faulty World}

/-- An operation that stays within the outline leaves the private reply as it is. -/
theorem endsKept_of_keeps {op : Operation} (h : Keeps outline op.code) (hheard : Heard w.state.room) :
    EndsKept op w := by
  have hkept {answer : Option Bool} {w' : World} (hw : outline w' = outline w.state) :
      KeptAfter op w.state answer w' := by
    apply keptAfter_iff.mpr
    rw [hw]
    exact Outline.Heard.kept ((heard_iff _).mp hheard) rfl
  exact (h w).mono (fun _ _ hw => hkept hw) fun _ hw => hkept hw

/-- What `EndsKept` comes to, once it is known what becomes of the outline. -/
theorem endsKept_iff {op : Operation} {Q : Bool → Faulty World → Prop} {E : Faulty World → Prop}
    (hspec : op.code.Ends w Q E) {P : Prop}
    (hgood : P →
      (∀ answer w', Q answer w' → (outline w.state).Kept op (some answer) (outline w'.state)) ∧
      ∀ w', E w' → (outline w.state).Kept op none (outline w'.state))
    (hbad : ¬ P →
      (∀ answer w', Q answer w' → ¬ (outline w.state).Kept op (some answer) (outline w'.state)) ∧
      ∀ w', E w' → ¬ (outline w.state).Kept op none (outline w'.state)) : EndsKept op w ↔ P := by
  constructor
  · intro hkept
    by_contra hnot
    obtain ⟨hQ, hE⟩ := hbad hnot
    apply (hspec.and hkept).elim
    · exact fun answer w' h => hQ answer w' h.1 (keptAfter_iff.mp h.2)
    · exact fun w' h => hE w' h.1 (keptAfter_iff.mp h.2)
  · intro hP
    obtain ⟨hQ, hE⟩ := hgood hP
    exact hspec.mono (fun answer w' h => keptAfter_iff.mpr (hQ answer w' h))
      fun w' h => keptAfter_iff.mpr (hE w' h)

/-- The same, where the outline becomes `o` however the operation ends. -/
theorem endsKept_iff_eq {op : Operation} {o : Outline}
    (hspec : op.code.Ends w (fun _ w' => outline w'.state = o) fun w' => outline w'.state = o)
    {P : Prop} (hgood : P → ∀ answer, (outline w.state).Kept op answer o)
    (hbad : ¬ P → ∀ answer, ¬ (outline w.state).Kept op answer o) : EndsKept op w ↔ P := by
  apply endsKept_iff hspec
  · exact fun hP => ⟨fun answer w' h => h ▸ hgood hP _, fun w' h => h ▸ hgood hP _⟩
  · exact fun hP => ⟨fun answer w' h => h ▸ hbad hP _, fun w' h => h ▸ hbad hP _⟩

/-! ### Agents -/

/-- The outline once these agents are left. -/
def Outline.leaves (o : Outline) (agents : Legs) : Outline :=
  { o with agents := agents.ids, agentPrivate := o.agentPrivate && !agents.isEmpty }

theorem outline_agents (w : World) (agents : Legs) :
    outline { w with room := { w.room with agents } } =
      { outline w with agents := agents.ids } := rfl

theorem outline_supervisors (w : World) (supervisors : Legs) :
    outline { w with room := { w.room with supervisors } } =
      { outline w with supervisors := supervisors.ids } := rfl

/-- An agent's leg is added, or the one it has is replaced. -/
theorem endsKept_agentAccepted (agentId : Nat) (hheard : Heard w.state.room) :
    EndsKept (.agentAccepted agentId) w := by
  have hsame {answer : Option Bool} {w' : World} (hw : outline w' = outline w.state) :
      KeptAfter (.agentAccepted agentId) w.state answer w' := by
    apply keptAfter_iff.mpr
    rw [hw]
    exact Outline.Heard.kept ((heard_iff _).mp hheard) rfl
  have hset {answer : Option Bool} {w' : World} (hw : outline w' = outline w.state) (leg : Leg) :
      KeptAfter (.agentAccepted agentId) w.state answer
        { w' with room := { w'.room with agents := w'.room.agents.set agentId leg } } := by
    apply keptAfter_iff.mpr
    rw [outline_agents w', hw]
    apply Outline.Heard.kept _ rfl
    intro hprivate
    obtain ⟨hmode, hsupervisors, -⟩ := (heard_iff _).mp hheard hprivate
    exact ⟨hmode, hsupervisors, Legs.ids_set_ne_nil _ _ _⟩
  show Ends (do agentAccepted agentId; return false) w _ _
  rw [ends_bind]
  rw [agentAccepted, theRoom, ends_bind, ends_read]
  split
  · exact hsame rfl
  · rename_i leg _
    refine (keeps_modify fun _ => rfl).then_ends (fun _ w₁ h₁ => ?_) fun _ h => hsame h
    refine (keeps_answeredAgentLeg serverless_outline leg).then_ends (fun _ w₂ h₂ => ?_) fun _ h =>
      hsame (h.trans h₁)
    refine keeps_read.then_ends (fun room w₃ h₃ => ?_) fun _ h => hsame (h.trans (h₂.trans h₁))
    refine (passes_destroyLeg serverless_outline _).keeps.then_ends (fun _ w₄ h₄ => ?_) fun _ h =>
      hsame (h.trans (h₃.trans (h₂.trans h₁)))
    exact hset (h₄.trans (h₃.trans (h₂.trans h₁))) _

/-- The agent's old leg goes first; without the new one it is missing. -/
theorem ends_answerAgent (agentId : Nat) (w : Faulty World) :
    let cost := destroyCost (w.state.room.agents.get agentId)
    let left : Outline :=
      { outline w.state with agents := (w.state.room.agents.delete agentId).ids }
    (Operation.answerAgent agentId).code.Ends w
      (fun _ w' => true ∉ (w.faults.drop cost).take 3 ∧
        ∃ agents ≠ [], outline w'.state = { left with agents })
      fun w' => true ∈ (w.faults.drop cost).take 3 ∧ outline w'.state = left := by
  intro cost left
  show Ends (do answerAgent agentId; return false) w _ _
  rw [ends_bind]
  unfold answerAgent
  rw [ends_bind]
  refine (ends_dropPreviousAgent agentId w).mono (fun _ w₁ h₁ => ?_) fun _ h => h.elim
  have houtline : outline w₁.state = left := outline_of_bare h₁.1
  rw [ends_bind]
  by_cases hfail : true ∈ (w.faults.drop cost).take 3
  · refine ((issues_legFromOffer _ _ w₁).2 (by rwa [h₁.2])).mono (fun _ _ h => h.elim) fun w₂ h₂ => ?_
    exact ⟨hfail, h₂.trans houtline⟩
  · refine ((issues_legFromOffer _ _ w₁).1 (by rwa [h₁.2])).mono (fun leg w₂ h₂ => ?_) fun _ h => h.elim
    let agents := w₂.state.room.agents.set agentId { leg with agentId }
    refine ⟨hfail, agents.ids, Legs.ids_set_ne_nil _ _ _, ?_⟩
    show outline { w₂.state with room := { w₂.state.room with agents } } = _
    rw [outline_agents w₂.state, h₂.1.trans houtline]

theorem endsKept_answerAgent (agentId : Nat) (hheld : w.state.held = .this)
    (hheard : Heard w.state.room) :
    EndsKept (.answerAgent agentId) w ↔
      (w.state.room.agentPrivate = true → w.state.room.agents.delete agentId = [] →
        true ∉ (w.faults.drop 2).take 3) := by
  have hrest := (heard_iff _).mp hheard
  have hcost (hprivate : w.state.room.agentPrivate = true)
      (hdelete : w.state.room.agents.delete agentId = []) :
      destroyCost (w.state.room.agents.get agentId) = 2 :=
    if_pos (Legs.get_of_delete_nil (hheard hprivate).2.2 hdelete)
  refine endsKept_iff (ends_answerAgent agentId w) (fun hP => ⟨?_, ?_⟩) fun hP => ⟨?_, ?_⟩
  · rintro answer w' ⟨-, agents, hagents, houtline⟩
    rw [houtline]
    apply Outline.Heard.kept _ rfl
    exact fun hprivate => ⟨(hrest hprivate).1, (hrest hprivate).2.1, hagents⟩
  · rintro w' ⟨hfail, houtline⟩
    rw [houtline]
    apply Outline.Heard.kept _ rfl
    refine fun hprivate => ⟨(hrest hprivate).1, (hrest hprivate).2.1, fun hids => ?_⟩
    have hdelete := Legs.ids_eq_nil.mp hids
    rw [hcost hprivate hdelete] at hfail
    exact hP hprivate hdelete hfail
  · rintro answer w' ⟨hgoes, -⟩ -
    apply hP
    intro hprivate hdelete
    rwa [hcost hprivate hdelete] at hgoes
  · rintro w' ⟨-, houtline⟩ hkept
    rw [houtline] at hkept
    apply hP
    intro hprivate hdelete
    exact absurd (Legs.ids_eq_nil.mpr hdelete) ((hkept hheld).1 hprivate).2.2

/-- The last agent to leave ends the private reply. -/
theorem ends_dropAgent (agentId : Option Nat) (w : Faulty World) :
    let left := (outline w.state).leaves
      (w.state.room.agents.deleteAll (w.state.room.agents.named agentId))
    (Operation.dropAgent agentId).code.Ends w (fun _ w' => outline w'.state = left)
      fun w' => outline w'.state = left := by
  generalize hagents : w.state.room.agents.deleteAll (w.state.room.agents.named agentId) = agents
  intro left
  show Ends (do dropAgent agentId; return false) w _ _
  rw [ends_bind]
  show Ends (do
      removeAgents (w.state.room.agents.named agentId)
      let room ← theRoom
      if room.agents.isEmpty then
        modify fun room => { room with agentPrivate := false }
        tone true) w _ _
  rw [ends_bind]
  refine (ends_removeAgents _ w).mono (fun _ w₁ h₁ => ?_) fun _ h => h.elim
  rw [hagents] at h₁
  have houtline : outline w₁.state = { outline w.state with agents := agents.ids } :=
    outline_of_bare h₁.1
  have hleft : w₁.state.room.agents = agents := congrArg Room.agents (bare_fields h₁.1).2.1
  show Ends (if w₁.state.room.agents.isEmpty then _ else _ : Code Unit) w₁ _ _
  rw [hleft]
  split
  · rename_i hempty
    have hnow {w' : World} (hw : outline w' = outline { w₁.state with
        room := { w₁.state.room with agentPrivate := false } }) : outline w' = left := by
      have hprivate : outline { w₁.state with room := { w₁.state.room with agentPrivate := false } } =
          { outline w₁.state with agentPrivate := false } := rfl
      rw [hw, hprivate, houtline]
      simp [left, Outline.leaves, hempty]
    rw [ends_bind]
    exact (keeps_tone true _).mono (fun _ _ h => hnow h) fun _ h => hnow h
  · rename_i hsome
    show outline w₁.state = left
    rw [houtline]
    have hfalse : agents.isEmpty = false := by simpa using hsome
    simp [left, Outline.leaves, hfalse]

theorem endsKept_dropAgent (agentId : Option Nat) (hheld : w.state.held = .this)
    (hheard : Heard w.state.room) :
    EndsKept (.dropAgent agentId) w ↔ (w.state.room.agentPrivate = true →
      w.state.room.agents.deleteAll (w.state.room.agents.named agentId) ≠ []) := by
  have hrest := (heard_iff _).mp hheard
  apply endsKept_iff_eq (ends_dropAgent agentId w)
  · intro hP answer
    cases hprivate : w.state.room.agentPrivate with
    | false =>
      have hstays : (outline w.state).agentPrivate = false := hprivate
      apply Outline.Heard.kept
      · intro h
        simp [Outline.leaves, hstays] at h
      · simp [Outline.leaves, hstays]
    | true =>
      have hsome := hP hprivate
      apply Outline.Heard.kept
      · exact fun _ => ⟨(hrest hprivate).1, (hrest hprivate).2.1, fun h => hsome (Legs.ids_eq_nil.mp h)⟩
      · simp [Outline.leaves, List.isEmpty_eq_false_iff.mpr hsome]
  · intro hP answer hkept
    apply hP
    intro hprivate hempty
    have htold := (hkept hheld).2 hprivate (by simp [Outline.leaves, hempty]) rfl
    cases htold.1

/-! ### Supervisors -/

/-- A supervisor's leg has taken the place of what was left of the others, or failed to. -/
structure Outline.Replaced (o : Outline) (left : Legs) (o' : Outline) : Prop where
  held : o'.held = o.held
  agentPrivate : o'.agentPrivate = o.agentPrivate
  agents : o'.agents = o.agents
  alone : left = [] → o'.mode = .listen ∨ o'.supervisors = []
  among : left ≠ [] → o'.mode = o.mode ∧ o'.supervisors ≠ []

/-- In listen mode where nobody else is left. -/
theorem ends_joinSupervisor (supervisorId : Nat) (leg : Leg) (w : Faulty World) {o : Outline}
    {left : Legs} (hleft : w.state.room.supervisors.ids = left.ids)
    (ho : outline w.state = { o with supervisors := left.ids }) :
    (joinSupervisor supervisorId leg).Ends w (fun _ w' => o.Replaced left (outline w'.state))
      fun w' => o.Replaced left (outline w'.state) := by
  have hempty : w.state.room.supervisors.isEmpty = left.isEmpty := by
    rw [Bool.eq_iff_iff, List.isEmpty_iff, List.isEmpty_iff, ← Legs.ids_eq_nil, hleft, Legs.ids_eq_nil]
  let entered : Outline :=
    { o with supervisors := left.ids, mode := if left.isEmpty then .listen else o.mode }
  have hmode : outline { w.state with room := if w.state.room.supervisors.isEmpty then
      { w.state.room with mode := .listen } else w.state.room } = entered := by
    rw [hempty]
    cases h : left.isEmpty with
    | true =>
      have hlisten : outline { w.state with room := { w.state.room with mode := .listen } } =
          { outline w.state with mode := .listen } := rfl
      simp only [if_true, hlisten, ho, entered, h]
    | false =>
      show outline w.state = entered
      simp [ho, entered, h]
  have hmissing {w' : World} (hw : outline w' = entered) : o.Replaced left (outline w') := by
    rw [hw]
    refine ⟨rfl, rfl, rfl, fun h => .inr ?_, fun h => ⟨?_, fun hids => h (Legs.ids_eq_nil.mp hids)⟩⟩
    · exact Legs.ids_eq_nil.mpr h
    · simp [entered, h]
  have hthere {w' : World} (supervisors : Legs) (hs : supervisors.ids ≠ [])
      (hw : outline w' = { entered with supervisors := supervisors.ids }) :
      o.Replaced left (outline w') := by
    rw [hw]
    refine ⟨rfl, rfl, rfl, fun h => .inl ?_, fun h => ⟨?_, hs⟩⟩
    · simp [entered, h]
    · simp [entered, h]
  unfold joinSupervisor
  rw [ends_bind]
  show Ends (do
      let leg ← join leg
      modify fun room => { room with supervisors := room.supervisors.set supervisorId leg }
      rules) ⟨{ w.state with room := if w.state.room.supervisors.isEmpty then
        { w.state.room with mode := .listen } else w.state.room }, w.faults⟩ _ _
  refine (keeps_join serverless_outline leg).then_ends (fun joined w₂ h₂ => ?_) fun w' h =>
    hmissing (h.trans hmode)
  let supervisors := w₂.state.room.supervisors.set supervisorId joined
  have hset : outline { w₂.state with room := { w₂.state.room with supervisors } } =
      { entered with supervisors := supervisors.ids } := by
    rw [outline_supervisors w₂.state, h₂.trans hmode]
  rw [ends_bind]
  have hids : supervisors.ids ≠ [] := Legs.ids_set_ne_nil _ _ _
  exact (keeps_rules serverless_outline _).mono (fun _ w' h => hthere supervisors hids (h.trans hset))
    fun w' h => hthere supervisors hids (h.trans hset)

/-- A private reply is kept where another supervisor is left to hear it. -/
theorem Outline.Replaced.kept_iff {o o' : Outline} {left : Legs} {op : Operation}
    {answer : Option Bool} (h : o.Replaced left o') (hheld : o.held = .this) (hheard : o.Heard) :
    o.Kept op answer o' ↔ (o.agentPrivate = true → left ≠ []) := by
  constructor
  · intro hkept hprivate hleft
    have hnow := (hkept (h.held.trans hheld)).1 (h.agentPrivate.trans hprivate)
    rcases h.alone hleft with hmode | hnone
    · rw [hmode] at hnow
      cases hnow.1
    · exact hnow.2.1 hnone
  · intro hleft
    refine Outline.Heard.kept (fun hprivate => ?_) h.agentPrivate
    have hbefore := h.agentPrivate.symm.trans hprivate
    obtain ⟨hmode, hsupervisors⟩ := h.among (hleft hbefore)
    obtain ⟨hwhisper, -, hagents⟩ := hheard hbefore
    exact ⟨hmode.trans hwhisper, hsupervisors, by rwa [h.agents]⟩

/-- The old leg is gone and the new one was not made. -/
theorem Outline.replaced_missing {o o' : Outline} {left : Legs}
    (h : o' = { o with supervisors := left.ids }) : o.Replaced left o' := by
  subst h
  exact ⟨rfl, rfl, rfl, fun h => .inr (Legs.ids_eq_nil.mpr h),
    fun h => ⟨rfl, fun hids => h (Legs.ids_eq_nil.mp hids)⟩⟩

theorem ends_addSupervisor (supervisorId : Nat) (w : Faulty World) :
    let left := w.state.room.supervisors.delete supervisorId
    (Operation.addSupervisor supervisorId).code.Ends w
      (fun _ w' => (outline w.state).Replaced left (outline w'.state))
      fun w' => (outline w.state).Replaced left (outline w'.state) := by
  intro left
  show Ends (do addSupervisor supervisorId; return false) w _ _
  rw [ends_bind]
  unfold addSupervisor
  rw [ends_bind]
  refine (ends_dropPreviousSupervisor supervisorId w).mono (fun _ w₁ h₁ => ?_) fun _ h => h.elim
  have houtline : outline w₁.state = { outline w.state with supervisors := left.ids } :=
    outline_of_bare h₁.1
  refine (issues_legFromOffer _ _).keeps.then_ends (fun leg w₂ h₂ => ?_) fun w' h =>
    Outline.replaced_missing (h.trans houtline)
  have hboth := h₂.trans houtline
  exact ends_joinSupervisor supervisorId leg w₂ (congrArg Outline.supervisors hboth) hboth

theorem endsKept_addSupervisor (supervisorId : Nat) (hheld : w.state.held = .this)
    (hheard : Heard w.state.room) :
    EndsKept (.addSupervisor supervisorId) w ↔ (w.state.room.agentPrivate = true →
      w.state.room.supervisors.delete supervisorId ≠ []) := by
  have hrest := (heard_iff _).mp hheard
  apply endsKept_iff (ends_addSupervisor supervisorId w)
  · exact fun hP => ⟨fun _ w' h => (h.kept_iff hheld hrest).mpr hP,
      fun w' h => (h.kept_iff hheld hrest).mpr hP⟩
  · exact fun hP => ⟨fun _ w' h hkept => hP ((h.kept_iff hheld hrest).mp hkept),
      fun w' h hkept => hP ((h.kept_iff hheld hrest).mp hkept)⟩

/-- The supervisor was offered a leg, and their answer applies to it. -/
def Answerable (w : Faulty World) (supervisorId : Nat) : Prop :=
  (w.state.room.pendingSupervisors.get supervisorId).isSome = true ∧ true ∉ w.faults.take 2

/-- The answer may not apply: then the supervisor who was there stays. -/
def Answered (w : Faulty World) (supervisorId : Nat) (o : Outline) : Prop :=
  (Answerable w supervisorId ∧
    (outline w.state).Replaced (w.state.room.supervisors.delete supervisorId) o) ∨
  (¬ Answerable w supervisorId ∧ o = outline w.state)

theorem ends_supervisorAnswered (supervisorId : Nat) (w : Faulty World) :
    (Operation.supervisorAnswered supervisorId).code.Ends w
      (fun _ w' => Answered w supervisorId (outline w'.state))
      fun w' => Answered w supervisorId (outline w'.state) := by
  let left := w.state.room.supervisors.delete supervisorId
  show Ends (do supervisorAnswered supervisorId; return false) w _ _
  rw [ends_bind]
  rw [supervisorAnswered, theRoom, ends_bind, ends_read]
  cases hget : w.state.room.pendingSupervisors.get supervisorId with
  | none =>
    refine .inr ⟨fun h => ?_, rfl⟩
    have hsome := h.1
    rw [hget] at hsome
    cases hsome
  | some leg =>
    dsimp only
    rw [ends_bind]
    let w₁ : Faulty World := ⟨{ w.state with room := { w.state.room with
      pendingSupervisors := w.state.room.pendingSupervisors.delete supervisorId } }, w.faults⟩
    show Ends (do
      let leg ← applyAnswer leg
      dropPreviousSupervisor supervisorId
      joinSupervisor supervisorId leg) w₁ _ _
    rw [ends_bind]
    have hanswer := issues_applyAnswer serverless_bare leg w₁
    by_cases hfail : true ∈ w.faults.take 2
    · refine (hanswer.2 hfail).mono (fun _ _ h => h.elim) fun w' h => .inr ⟨fun h' => h'.2 hfail, ?_⟩
      show outline w'.state = outline w₁.state
      exact outline_of_bare h
    · refine (hanswer.1 hfail).mono (fun answered w₂ h₂ => ?_) fun _ h => h.elim
      have happlies : Answerable w supervisorId := ⟨by rw [hget]; rfl, hfail⟩
      have hroom : w₂.state.room = w₁.state.room := (bare_fields h₂.1).2.1
      rw [ends_bind]
      refine (ends_dropPreviousSupervisor supervisorId w₂).mono (fun _ w₃ h₃ => ?_) fun _ h => h.elim
      have houtline : outline w₃.state = { outline w.state with supervisors := left.ids } := by
        rw [outline_of_bare h₃.1, outline_supervisors w₂.state, outline_of_bare h₂.1, hroom]
        rfl
      exact (ends_joinSupervisor supervisorId answered w₃ (congrArg Outline.supervisors houtline)
        houtline).mono (fun _ _ h => .inl ⟨happlies, h⟩) fun _ h => .inl ⟨happlies, h⟩

theorem endsKept_supervisorAnswered (supervisorId : Nat) (hheld : w.state.held = .this)
    (hheard : Heard w.state.room) :
    EndsKept (.supervisorAnswered supervisorId) w ↔ (w.state.room.agentPrivate = true →
      (w.state.room.pendingSupervisors.get supervisorId).isSome = true → true ∉ w.faults.take 2 →
      w.state.room.supervisors.delete supervisorId ≠ []) := by
  have hrest := (heard_iff _).mp hheard
  have hkept {answer : Option Bool} {o : Outline} (h : Answered w supervisorId o) :
      (outline w.state).Kept (.supervisorAnswered supervisorId) answer o ↔
        (w.state.room.agentPrivate = true → Answerable w supervisorId →
          w.state.room.supervisors.delete supervisorId ≠ []) := by
    rcases h with ⟨happlies, hreplaced⟩ | ⟨hnot, rfl⟩
    · rw [hreplaced.kept_iff hheld hrest]
      exact ⟨fun h hprivate _ => h hprivate, fun h hprivate => h hprivate happlies⟩
    · exact ⟨fun _ _ happlies => absurd happlies hnot, fun _ => hrest.kept rfl⟩
  apply endsKept_iff (ends_supervisorAnswered supervisorId w)
  · intro hP
    have hall (hprivate : w.state.room.agentPrivate = true) (happlies : Answerable w supervisorId) :=
      hP hprivate happlies.1 happlies.2
    exact ⟨fun _ w' h => (hkept h).mpr hall, fun w' h => (hkept h).mpr hall⟩
  · intro hP
    have hnot (hall : w.state.room.agentPrivate = true → Answerable w supervisorId →
        w.state.room.supervisors.delete supervisorId ≠ []) : False :=
      hP fun hprivate hpending hfaults => hall hprivate ⟨hpending, hfaults⟩
    exact ⟨fun _ w' h hk => hnot ((hkept h).mp hk), fun w' h hk => hnot ((hkept h).mp hk)⟩

/-! ### Who hears whom -/

/-- The mode is set before the rules are applied; only leaving whisper ends a private reply. -/
theorem ends_setSupervisorMode (mode : Mode) (w : Faulty World) :
    let ends := w.state.room.agentPrivate && mode ≠ .whisper
    let after := { outline w.state with
      mode, agentPrivate := w.state.room.agentPrivate && !ends }
    (Operation.setSupervisorMode mode).code.Ends w
      (fun answer w' => true ∉ w.faults.take (ruleCost w.state.room) ∧ answer = ends ∧
        outline w'.state = after)
      fun w' => true ∈ w.faults.take (ruleCost w.state.room) ∧ outline w'.state = after := by
  intro ends after
  let w₁ : Faulty World := ⟨{ w.state with room := { w.state.room with
    mode, agentPrivate := w.state.room.agentPrivate && !ends } }, w.faults⟩
  show Ends (do rules; return ends) w₁ _ _
  rw [ends_bind]
  apply ends_rules
  · exact fun hgoes w' h => ⟨hgoes, rfl, outline_of_bare h⟩
  · exact fun hfail w' h => ⟨hfail, outline_of_bare h⟩

theorem endsKept_setSupervisorMode (mode : Mode) (hheld : w.state.held = .this)
    (hheard : Heard w.state.room) :
    EndsKept (.setSupervisorMode mode) w ↔ (w.state.room.agentPrivate = true → mode ≠ .whisper →
      true ∉ w.faults.take (ruleCost w.state.room)) := by
  have hrest := (heard_iff _).mp hheard
  -- Private afterwards: it was before, and the mode is still whisper.
  have hheardAfter : Outline.Heard { outline w.state with
      mode, agentPrivate := w.state.room.agentPrivate &&
        !(w.state.room.agentPrivate && decide (mode ≠ .whisper)) } := by
    intro h
    simp only [Bool.and_eq_true, Bool.not_eq_true', Bool.and_eq_false_iff, decide_eq_false_iff_not,
      not_not] at h
    obtain ⟨hprivate, hnot | hmode⟩ := h
    · rw [hnot] at hprivate
      cases hprivate
    · exact ⟨hmode, (hrest hprivate).2⟩
  apply endsKept_iff (ends_setSupervisorMode mode w)
  · intro hP
    constructor
    · rintro answer w' ⟨-, rfl, houtline⟩
      rw [houtline]
      refine fun _ => ⟨hheardAfter, fun hprivate hnow _ => ⟨rfl, congrArg some ?_⟩⟩
      have hbefore : w.state.room.agentPrivate = true := hprivate
      simpa [hbefore] using hnow
    · rintro w' ⟨hfail, houtline⟩
      rw [houtline]
      refine fun _ => ⟨hheardAfter, fun hprivate hnow _ => ?_⟩
      have hbefore : w.state.room.agentPrivate = true := hprivate
      have hmode : mode ≠ .whisper := by simpa [hbefore] using hnow
      exact absurd hfail (hP hbefore hmode)
  · intro hP
    constructor
    · rintro answer w' ⟨hgoes, -⟩ -
      exact hP fun _ _ => hgoes
    · rintro w' ⟨-, houtline⟩ hkept
      rw [houtline] at hkept
      apply hP
      intro hprivate hmode
      have hbefore : (outline w.state).agentPrivate = true := hprivate
      have htold := (hkept hheld).2 hbefore (by simp [hprivate, hmode]) rfl
      cases htold.2

/-- The request is granted while a supervisor whispers; nobody asks whether an agent is there. -/
theorem ends_setAgentPrivate (active : Bool) (w : Faulty World) :
    let allowed := w.state.room.mode = .whisper ∧ w.state.room.supervisors.isEmpty = false
    let after := { outline w.state with agentPrivate := active && decide allowed }
    (Operation.setAgentPrivate active).code.Ends w (fun _ w' => outline w'.state = after)
      fun w' => outline w'.state = after := by
  intro allowed after
  let w₁ : Faulty World := ⟨{ w.state with room := { w.state.room with
    agentPrivate := active && decide allowed } }, w.faults⟩
  show Ends (do rules; return (← theRoom).agentPrivate) w₁ _ _
  have hafter : outline w₁.state = after := rfl
  exact (keeps_rules serverless_outline).then_ends (fun _ w' h => h.trans hafter)
    fun w' h => h.trans hafter

theorem endsKept_setAgentPrivate (active : Bool) (hheld : w.state.held = .this) :
    EndsKept (.setAgentPrivate active) w ↔ (active = true → w.state.room.mode = .whisper →
      w.state.room.supervisors ≠ [] → w.state.room.agents ≠ []) := by
  have hnonempty : w.state.room.supervisors.isEmpty = false ↔ w.state.room.supervisors ≠ [] :=
    List.isEmpty_eq_false_iff
  apply endsKept_iff_eq (ends_setAgentPrivate active w)
  · intro hP answer _
    refine ⟨fun h => ?_, fun _ _ h => by cases h⟩
    simp only [Bool.and_eq_true, decide_eq_true_eq] at h
    obtain ⟨hactive, hmode, hsupervisors⟩ := h
    have hs := hnonempty.mp hsupervisors
    exact ⟨hmode, fun h => hs (Legs.ids_eq_nil.mp h),
      fun h => hP hactive hmode hs (Legs.ids_eq_nil.mp h)⟩
  · intro hP answer hkept
    apply hP
    intro hactive hmode hsupervisors hagents
    have hprivate : (active && decide (w.state.room.mode = .whisper ∧
        w.state.room.supervisors.isEmpty = false)) = true := by
      simp [hactive, hmode, hnonempty.mpr hsupervisors]
    exact ((hkept hheld).1 hprivate).2.2 (Legs.ids_eq_nil.mpr hagents)

/-- The room once these supervisors are left. -/
def leavesSupervisors (room : Room) (left : Legs) : Room :=
  if left.isEmpty then { room with supervisors := left, agentPrivate := false, mode := .listen }
  else { room with supervisors := left }

/-- Its outline. -/
def Outline.leavesSupervisors (o : Outline) (left : Legs) : Outline :=
  { o with
    supervisors := left.ids
    agentPrivate := o.agentPrivate && !left.isEmpty
    mode := if left.isEmpty then .listen else o.mode }

/-- The last supervisor to leave ends the private reply, before the rules are applied. -/
theorem ends_removeSupervisor (supervisorId : Option Nat) (w : Faulty World) {left : Legs}
    (hleft : w.state.room.supervisors.deleteAll (w.state.room.supervisors.named supervisorId) = left) :
    let rest := (w.faults.drop (w.state.room.supervisors.removeCost
      (w.state.room.supervisors.named supervisorId))).take
      (ruleCost { w.state.room with supervisors := left })
    (Operation.removeSupervisor supervisorId).code.Ends w
      (fun answer w' => true ∉ rest ∧ answer = (w.state.room.agentPrivate && left.isEmpty) ∧
        outline w'.state = (outline w.state).leavesSupervisors left)
      fun w' => true ∈ rest ∧ outline w'.state = (outline w.state).leavesSupervisors left := by
  intro rest
  show Ends (do
    removeSupervisors (w.state.room.supervisors.named supervisorId)
    let wasPrivate := (← theRoom).agentPrivate
    modify fun room =>
      if room.supervisors.isEmpty then { room with agentPrivate := false, mode := .listen } else room
    rules
    return wasPrivate && !(← theRoom).agentPrivate) w _ _
  rw [ends_bind]
  refine (ends_removeSupervisors _ w).mono (fun _ w₁ h₁ => ?_) fun _ h => h.elim
  rw [hleft] at h₁
  obtain ⟨hworker, hroom, hheld, hsaved⟩ := bare_fields h₁.1
  let w₂ : Faulty World :=
    ⟨{ w₁.state with room := leavesSupervisors w.state.room left }, w₁.faults⟩
  have hchanged : (if w₁.state.room.supervisors.isEmpty then
      { w₁.state.room with agentPrivate := false, mode := .listen } else w₁.state.room) =
      leavesSupervisors w.state.room left := by
    rw [hroom]
    rfl
  show Ends (do
    rules
    return w₁.state.room.agentPrivate && !(← theRoom).agentPrivate)
      ⟨{ w₁.state with room := if w₁.state.room.supervisors.isEmpty then
        { w₁.state.room with agentPrivate := false, mode := .listen } else w₁.state.room }, w₁.faults⟩ _ _
  rw [hchanged]
  have hcost : ruleCost (leavesSupervisors w.state.room left) =
      ruleCost { w.state.room with supervisors := left } := by
    unfold leavesSupervisors
    split <;> rfl
  have hafter : outline w₂.state = (outline w.state).leavesSupervisors left := by
    unfold outline Outline.leavesSupervisors
    simp only [w₂, hworker, hheld, hsaved]
    unfold leavesSupervisors
    cases h : left.isEmpty <;> simp
  have hrest : w₂.faults.take (ruleCost w₂.state.room) = rest := by
    show w₁.faults.take (ruleCost (leavesSupervisors w.state.room left)) = rest
    rw [h₁.2, hcost]
  rw [ends_bind]
  apply ends_rules (w := w₂)
  · intro hgoes w' h
    refine ⟨hrest ▸ hgoes, ?_, (outline_of_bare h).trans hafter⟩
    have hwas : w₁.state.room.agentPrivate = w.state.room.agentPrivate := by rw [hroom]
    have hnow : w'.state.room.agentPrivate = (w.state.room.agentPrivate && !left.isEmpty) :=
      congrArg Outline.agentPrivate ((outline_of_bare h).trans hafter)
    rw [hnow, hwas]
    cases w.state.room.agentPrivate <;> simp
  · intro hfail w' h
    exact ⟨hrest ▸ hfail, (outline_of_bare h).trans hafter⟩

theorem endsKept_removeSupervisor (supervisorId : Option Nat) (hheld : w.state.held = .this)
    (hheard : Heard w.state.room) :
    EndsKept (.removeSupervisor supervisorId) w ↔ (w.state.room.agentPrivate = true →
      w.state.room.supervisors.deleteAll (w.state.room.supervisors.named supervisorId) = [] →
      true ∉ (w.faults.drop (w.state.room.supervisors.removeCost
        (w.state.room.supervisors.named supervisorId))).take
        (ruleCost { w.state.room with supervisors := [] })) := by
  have hrest := (heard_iff _).mp hheard
  generalize hleft : w.state.room.supervisors.deleteAll
    (w.state.room.supervisors.named supervisorId) = left
  -- Still private: somebody is left who whispers.
  have hheardAfter : ((outline w.state).leavesSupervisors left).Heard := by
    intro h
    simp only [Outline.leavesSupervisors, Bool.and_eq_true, Bool.not_eq_true'] at h
    obtain ⟨hprivate, hsome⟩ := h
    have hids : left.ids ≠ [] := fun hids => List.isEmpty_eq_false_iff.mp hsome (Legs.ids_eq_nil.mp hids)
    refine ⟨?_, hids, (hrest hprivate).2.2⟩
    simp only [Outline.leavesSupervisors, hsome]
    exact (hrest hprivate).1
  have hended (hprivate : w.state.room.agentPrivate = true)
      (hnow : ((outline w.state).leavesSupervisors left).agentPrivate = false) : left = [] := by
    have hbefore : (outline w.state).agentPrivate = true := hprivate
    simpa [Outline.leavesSupervisors, hbefore] using hnow
  apply endsKept_iff (ends_removeSupervisor supervisorId w hleft)
  · intro hP
    constructor
    · rintro answer w' ⟨-, rfl, houtline⟩
      rw [houtline]
      refine fun _ => ⟨hheardAfter, fun hprivate hnow _ => ⟨rfl, congrArg some ?_⟩⟩
      have hbefore : w.state.room.agentPrivate = true := hprivate
      simp [hbefore, hended hbefore hnow]
    · rintro w' ⟨hfail, houtline⟩
      rw [houtline]
      refine fun _ => ⟨hheardAfter, fun hprivate hnow _ => ?_⟩
      have hnone := hended hprivate hnow
      rw [hnone] at hfail
      exact absurd hfail (hP hprivate hnone)
  · intro hP
    constructor
    · rintro answer w' ⟨hgoes, -⟩ -
      apply hP
      intro _ hnone
      rwa [hnone] at hgoes
    · rintro w' ⟨-, houtline⟩ hkept
      rw [houtline] at hkept
      apply hP
      intro hprivate hnone
      have hbefore : (outline w.state).agentPrivate = true := hprivate
      have htold := (hkept hheld).2 hbefore (by simp [Outline.leavesSupervisors, hnone]) rfl
      cases htold.2

/-! ### The end, and another worker -/

/-- A closed room is in no map. -/
theorem endsKept_close : EndsKept .close w := by
  have hgone {answer : Option Bool} {w' : World} (h : w'.held = .nothing) :
      KeptAfter .close w.state answer w' := by
    intro hthis
    rw [h] at hthis
    cases hthis
  show Ends (do close; return false) w _ _
  rw [ends_bind, ends_close]
  split
  · rename_i hnothing
    exact hgone hnothing
  · exact (keeps_destroyLegs serverless_around _ _).mono
      (fun _ _ h => hgone (congrArg (·.2.1) h)) fun _ h => hgone (congrArg (·.2.1) h)

/-- The agents' legs come back one after the other. -/
theorem ends_adoptAgents (saved : List Leg) (w : Faulty World) :
    (adoptAgents saved).Ends w
      (fun _ w' => true ∉ w.faults.take saved.length ∧ w'.faults = w.faults.drop saved.length ∧
        ∃ agents, outline w'.state = { outline w.state with agents } ∧
          (saved ≠ [] ∨ (outline w.state).agents ≠ [] → agents ≠ []))
      fun w' => true ∈ w.faults.take saved.length ∧
        ∃ agents, outline w'.state = { outline w.state with agents } := by
  induction saved generalizing w with
  | nil => exact ⟨List.not_mem_nil, rfl, _, rfl, fun h => h.resolve_left fun hnil => hnil rfl⟩
  | cons leg rest ih =>
    have hadopt := issues_adoptLeg serverless_bare leg w
    have hsplit := true_mem_take_add w.faults 1 rest.length
    rw [List.length_cons, Nat.add_comm rest.length 1, hsplit, adoptAgents, ends_bind]
    by_cases hfail : true ∈ w.faults.take 1
    · refine (hadopt.2 hfail).mono (fun _ _ h => h.elim) fun w' h => ⟨.inl hfail, (outline w.state).agents, ?_⟩
      rw [outline_of_bare h]
    · refine (hadopt.1 hfail).mono (fun adopted w₁ h₁ => ?_) fun _ h => h.elim
      let agents := w₁.state.room.agents.set (adopted.agentId.getD 0) adopted
      let w₂ : Faulty World := ⟨{ w₁.state with room := { w₁.state.room with agents } }, w₁.faults⟩
      have hset : outline w₂.state = { outline w.state with agents := agents.ids } := by
        rw [outline_agents w₁.state, outline_of_bare h₁.1]
      show Ends (adoptAgents rest) w₂ _ _
      have hfaults : w₂.faults = w.faults.drop 1 := h₁.2
      have hrest := ih w₂
      rw [hfaults, hset] at hrest
      refine hrest.mono (fun _ w' h => ?_) fun w' h => ?_
      · obtain ⟨hgoes, hdrop, agents', houtline, hsome⟩ := h
        refine ⟨fun h => h.elim hfail hgoes, by rw [hdrop, List.drop_drop], agents', houtline, fun _ => ?_⟩
        exact hsome (.inr (Legs.ids_set_ne_nil _ _ _))
      · exact ⟨.inr h.1, h.2⟩

/-- From the first supervisor's leg on, somebody hears. -/
theorem ends_adoptSupervisors (saved : Legs) (w : Faulty World) :
    let after (o : Outline) : Prop := ∃ supervisors, o = { outline w.state with supervisors } ∧
      ((outline w.state).supervisors ≠ [] → supervisors ≠ []) ∧
      (saved ≠ [] → true ∉ w.faults.take 1 → supervisors ≠ [])
    (adoptSupervisors saved).Ends w
      (fun _ w' => (saved ≠ [] → true ∉ w.faults.take 1) ∧ after (outline w'.state))
      fun w' => (true ∈ w.faults.take 1 → outline w'.state = outline w.state) ∧
        after (outline w'.state) := by
  induction saved generalizing w with
  | nil => exact ⟨fun h => absurd rfl h, _, rfl, id, fun h => absurd rfl h⟩
  | cons entry rest ih =>
    intro after
    obtain ⟨supervisorId, leg⟩ := entry
    have hadopt := issues_adoptLeg serverless_bare leg w
    rw [adoptSupervisors, ends_bind]
    by_cases hfail : true ∈ w.faults.take 1
    · refine (hadopt.2 hfail).mono (fun _ _ h => h.elim) fun w' h => ?_
      have hsame := outline_of_bare h
      exact ⟨fun _ => hsame, _, hsame, id, fun _ hgoes => absurd hfail hgoes⟩
    · refine (hadopt.1 hfail).mono (fun adopted w₁ h₁ => ?_) fun _ h => h.elim
      let supervisors := w₁.state.room.supervisors.set supervisorId adopted
      let w₂ : Faulty World :=
        ⟨{ w₁.state with room := { w₁.state.room with supervisors } }, w₁.faults⟩
      have hset : outline w₂.state = { outline w.state with supervisors := supervisors.ids } := by
        rw [outline_supervisors w₁.state, outline_of_bare h₁.1]
      show Ends (adoptSupervisors rest) w₂ _ _
      have hsome : supervisors.ids ≠ [] := Legs.ids_set_ne_nil _ _ _
      have hafter {o : Outline} {s : List Nat} (ho : o = { outline w₂.state with supervisors := s })
          (hs : (outline w₂.state).supervisors ≠ [] → s ≠ []) : after o := by
        rw [hset] at ho hs
        exact ⟨s, ho, fun _ => hs hsome, fun _ _ => hs hsome⟩
      refine (ih w₂).mono (fun _ w' h => ?_) fun w' h => ?_
      · obtain ⟨-, s, ho, hs, -⟩ := h
        exact ⟨fun _ => hfail, hafter ho hs⟩
      · obtain ⟨-, s, ho, hs, -⟩ := h
        exact ⟨fun hfails => absurd hfails hfail, hafter ho hs⟩

/-- What becomes of the outline when a private reply's room is taken over. -/
theorem ends_adoptLegs {snap : Snapshot} (w : Faulty World) (hagents : snap.agents ≠ [])
    (hsupervisors : snap.supervisors ≠ []) (hnone : (outline w.state).supervisors = []) :
    let fails := true ∈ w.faults.take (adoptCost snap)
    let whole (o : Outline) : Prop :=
      ∃ agents ≠ [], ∃ supervisors ≠ [], o = { outline w.state with agents, supervisors }
    (adoptLegs snap).Ends w (fun _ w' => ¬ fails ∧ whole (outline w'.state))
      fun w' => (fails ∧ (outline w'.state).supervisors = [] ∧
        (outline w'.state).agentPrivate = (outline w.state).agentPrivate) ∨
          (¬ fails ∧ whole (outline w'.state)) := by
  intro fails whole
  let before := snap.customer.toList.length + snap.pendingAgent.toList.length
  have hcost : fails ↔ true ∈ w.faults.take before ∨
      true ∈ (w.faults.drop before).take snap.agents.length ∨
      true ∈ (w.faults.drop (before + snap.agents.length)).take 1 := by
    show true ∈ w.faults.take (before + snap.agents.length + 1) ↔ _
    rw [true_mem_take_add, true_mem_take_add, or_assoc]
  have hfirst : Issues outline before (do
      adoptCustomer snap.customer
      adoptPendingAgent snap.pendingAgent) :=
    (issues_adoptCustomer _).bind fun _ => issues_adoptPendingAgent _
  have hlast : Keeps outline (do
      modify fun room => { room with recording := snap.recording.or room.recording }
      watchCustomer) := (keeps_modify fun _ => rfl).bind fun _ => keeps_watchCustomer
  rw [adoptLegs, ← bind_assoc, ends_bind]
  by_cases hfail : true ∈ w.faults.take before
  · refine ((hfirst w).2 hfail).mono (fun _ _ h => h.elim) fun w' h => ?_
    rw [h]
    exact .inl ⟨hcost.mpr (.inl hfail), hnone, rfl⟩
  · refine ((hfirst w).1 hfail).mono (fun _ w₁ h₁ => ?_) fun _ h => h.elim
    rw [ends_bind]
    refine (ends_adoptAgents snap.agents w₁).mono (fun _ w₂ h₂ => ?_) fun w' h => ?_
    · obtain ⟨hgoes, hdrop, agents, houtline, hsome⟩ := h₂
      rw [h₁.1] at houtline
      rw [h₁.2] at hgoes hdrop
      rw [List.drop_drop] at hdrop
      have hagents' : agents ≠ [] := hsome (.inl hagents)
      have hnone₂ : (outline w₂.state).supervisors = [] := by rw [houtline]; exact hnone
      rw [ends_bind]
      have hthird : fails ↔ true ∈ w₂.faults.take 1 := by
        rw [hcost, hdrop]
        exact ⟨fun h => (h.resolve_left hfail).resolve_left hgoes, fun h => .inr (.inr h)⟩
      have hwhole {o : Outline} {supervisors : List Nat} (hs : supervisors ≠ [])
          (ho : o = { outline w₂.state with supervisors }) : whole o := by
        rw [houtline] at ho
        exact ⟨agents, hagents', supervisors, hs, ho⟩
      refine (ends_adoptSupervisors snap.supervisors w₂).mono (fun _ w₃ h₃ => ?_) fun w' h => ?_
      · obtain ⟨hgoes₃, supervisors, ho, -, hs⟩ := h₃
        have hnot := hgoes₃ hsupervisors
        refine (hlast w₃).mono (fun _ w' h => ?_) fun w' h => .inr ?_
        · exact ⟨fun h => hnot (hthird.mp h), hwhole (hs hsupervisors hnot) (h.trans ho)⟩
        · exact ⟨fun h => hnot (hthird.mp h), hwhole (hs hsupervisors hnot) (h.trans ho)⟩
      · obtain ⟨hsame, supervisors, ho, -, hs⟩ := h
        by_cases hfails : true ∈ w₂.faults.take 1
        · refine .inl ⟨hthird.mpr hfails, ?_, ?_⟩
          · rw [hsame hfails]
            exact hnone₂
          · rw [hsame hfails, houtline]
        · exact .inr ⟨fun h => hfails (hthird.mp h), hwhole (hs hsupervisors hfails) ho⟩
    · obtain ⟨hfails, agents, houtline⟩ := h
      rw [h₁.1] at houtline
      rw [h₁.2] at hfails
      rw [houtline]
      exact .inl ⟨hcost.mpr (.inr (.inl hfails)), hnone, rfl⟩

/-- As `Heard`, of what is saved of a room. -/
def Snapshot.Heard (snap : Snapshot) : Prop :=
  snap.agentPrivate = true → snap.mode = .whisper ∧ snap.supervisors ≠ [] ∧ snap.agents ≠ []

theorem snapshotOf_heard {room : Room} (h : Heard room) : (snapshotOf room).Heard := by
  intro hprivate
  obtain ⟨hmode, hsupervisors, hagents⟩ := h hprivate
  exact ⟨hmode, hsupervisors, fun hvalues => hagents (List.map_eq_nil_iff.mp hvalues)⟩

/-- A room with legs is left alone, and one that has none takes over what is saved. -/
theorem endsKept_adopt (hheld : w.state.held = .this) (hheard : Heard w.state.room)
    (hsaved : ∀ snap, w.state.saved = some snap → snap.Heard) :
    EndsKept .adopt w ↔ (w.state.room.customer = none → w.state.room.agents = [] →
      w.state.room.supervisors = [] → ∀ snap, w.state.saved = some snap →
        snap.agentPrivate = true → true ∉ w.faults.take (adoptCost snap)) := by
  have hcode : Ends (Operation.adopt.code) w = adopt.Ends w := rfl
  unfold EndsKept
  rw [hcode]
  by_cases hlegs : Occupied w.state.room
  · rw [ends_adopt_occupied hlegs]
    have hkept : KeptAfter .adopt w.state (some true) w.state :=
      keptAfter_iff.mpr (Outline.Heard.kept ((heard_iff _).mp hheard) rfl)
    refine ⟨fun _ hcustomer hagents hsupervisors => ?_, fun _ => hkept⟩
    exact absurd hlegs (not_occupied.mpr ⟨hcustomer, hagents, hsupervisors⟩)
  · obtain ⟨hcustomer, hagents, hsupervisors⟩ := not_occupied.mp hlegs
    have hsilent : w.state.room.agentPrivate = false := by
      by_contra h
      exact (hheard (by simpa using h)).2.1 hsupervisors
    cases hsnap : w.state.saved with
    | none =>
      rw [ends_adopt_unsaved hlegs hsnap]
      exact iff_of_true (fun hthis => by cases hthis) fun _ _ _ snap h => by cases h
    | some snap =>
      rw [ends_adopt_saved hlegs hsnap]
      -- Nothing is told of a private reply that was not there.
      have hkept {answer : Option Bool} {w' : World} (haround : around w' = around w.state) :
          KeptAfter .adopt w.state answer w' ↔ Heard w'.room := by
        have hthis : w'.held = .this := (congrArg (·.2.1) haround).trans hheld
        refine ⟨fun h => (h hthis).1, fun h _ => ⟨h, fun hprivate => ?_⟩⟩
        rw [hsilent] at hprivate
        cases hprivate
      let w₁ : Faulty World := ⟨{ w.state with room := tookOver w.state.room snap }, w.faults⟩
      have haround : (adoptLegs snap).Ends w₁ (fun _ w' => around w'.state = around w.state)
          fun w' => around w'.state = around w.state := keeps_around_adoptLegs snap w₁
      cases hprivate : snap.agentPrivate with
      | false =>
        have hsilent' := keeps_adoptLegs (f := (·.agentPrivate)) snap (fun _ _ => rfl) (fun _ _ => rfl) w₁
        have hheard' {w' : World} (h : (outline w').agentPrivate = (outline w₁.state).agentPrivate) :
            Heard w'.room := by
          intro hnow
          have hfalse : (outline w').agentPrivate = false := h.trans hprivate
          cases hfalse.symm.trans hnow
        refine iff_of_true ?_ fun _ _ _ snap' h hprivate' => ?_
        · exact (haround.and hsilent').mono (fun _ _ h => (hkept h.1).mpr (hheard' h.2))
            fun _ h => (hkept h.1).mpr (hheard' h.2)
        · cases h
          cases hprivate.symm.trans hprivate'
      | true =>
        obtain ⟨hmode, hsupervisors', hagents'⟩ := hsaved snap hsnap hprivate
        have hnone : (outline w₁.state).supervisors = [] := Legs.ids_eq_nil.mpr hsupervisors
        have hends := haround.and (ends_adoptLegs w₁ hagents' hsupervisors' hnone)
        have hwhole {w' : World} {agents supervisors : List Nat} (ha : agents ≠ [])
            (hs : supervisors ≠ []) (h : outline w' = { outline w₁.state with agents, supervisors }) :
            Heard w'.room := by
          rw [heard_iff, h]
          exact fun _ => ⟨hmode, hs, ha⟩
        have hunheard {w' : World} (hs : (outline w').supervisors = [])
            (hp : (outline w').agentPrivate = (outline w₁.state).agentPrivate) : ¬ Heard w'.room := by
          rw [heard_iff]
          exact fun h => (h (hp.trans hprivate)).2.1 hs
        by_cases hfail : true ∈ w.faults.take (adoptCost snap)
        · refine iff_of_false (fun hkept' => ?_) fun h => h hcustomer hagents hsupervisors snap rfl hprivate hfail
          apply (hends.and hkept').elim
          · exact fun _ w' h => h.1.2.1 hfail
          · rintro w' ⟨⟨hw, h | h⟩, hkept'⟩
            · exact hunheard h.2.1 h.2.2 ((hkept hw).mp hkept')
            · exact h.1 hfail
        · refine iff_of_true (hends.mono (fun _ w' h => ?_) fun w' h => ?_) fun _ _ _ snap' h _ => ?_
          · obtain ⟨hw, -, agents, ha, supervisors, hs, houtline⟩ := h
            exact (hkept hw).mpr (hwhole ha hs houtline)
          · rcases h with ⟨hw, h | ⟨-, agents, ha, supervisors, hs, houtline⟩⟩
            · exact absurd h.1 hfail
            · exact (hkept hw).mpr (hwhole ha hs houtline)
          · cases h
            exact hfail

end Operations

/-! ## A run -/

/-- A private reply is heard, in the room and in what is saved of it. -/
structure Station.Heeds (s : Station) : Prop where
  heard : ∀ room, s.room = some room → Heard room
  saved : ∀ snap, s.saved = some snap → snap.Heard

theorem fresh_heeds (worker : Nat) : ({ worker } : Station).Heeds :=
  ⟨fun _ h => (nomatch h), fun _ h => (nomatch h)⟩

theorem Station.Heeds.roomFor {s : Station} (h : s.Heeds) : Heard s.roomFor := by
  cases hroom : s.room with
  | none =>
    intro hprivate
    simp [Station.roomFor, hroom] at hprivate
  | some room =>
    have hsame : s.roomFor = room := by simp [Station.roomFor, hroom]
    rw [hsame]
    exact h.heard room hroom

theorem endsKept_iff_orderly {s : Station} (h : s.Heeds) (op : Operation) (faults : List Bool) :
    EndsKept op ⟨s.world, faults⟩ ↔ Orderly s faults op := by
  have hheard : Heard s.world.room := h.roomFor
  cases op with
  | answerCustomer transport =>
    exact iff_of_true (endsKept_of_keeps ((keeps_answerCustomer _).bind fun _ => keeps_pure _) hheard) trivial
  | offerCustomer transport =>
    exact iff_of_true (endsKept_of_keeps ((keeps_offerCustomer _).bind fun _ => keeps_pure _) hheard) trivial
  | customerAnswered =>
    exact iff_of_true (endsKept_of_keeps (keeps_customerAnswered.bind fun _ => keeps_pure _) hheard) trivial
  | offerAgent =>
    exact iff_of_true (endsKept_of_keeps (keeps_offerAgent.bind fun _ => keeps_pure _) hheard) trivial
  | agentAccepted agentId => exact iff_of_true (endsKept_agentAccepted agentId hheard) trivial
  | answerAgent agentId => exact endsKept_answerAgent agentId rfl hheard
  | dropAgent agentId => exact endsKept_dropAgent agentId rfl hheard
  | bridge recorded => exact iff_of_true (endsKept_of_keeps (keeps_bridge recorded) hheard) trivial
  | addSupervisor supervisorId => exact endsKept_addSupervisor supervisorId rfl hheard
  | offerSupervisor supervisorId =>
    exact iff_of_true (endsKept_of_keeps ((keeps_offerSupervisor _).bind fun _ => keeps_pure _) hheard) trivial
  | supervisorAnswered supervisorId => exact endsKept_supervisorAnswered supervisorId rfl hheard
  | setSupervisorMode mode => exact endsKept_setSupervisorMode mode rfl hheard
  | setAgentPrivate active => exact endsKept_setAgentPrivate active rfl
  | removeSupervisor supervisorId => exact endsKept_removeSupervisor supervisorId rfl hheard
  | startHold audio =>
    exact iff_of_true (endsKept_of_keeps ((keeps_startHold _).bind fun _ => keeps_pure _) hheard) trivial
  | stopHold =>
    exact iff_of_true (endsKept_of_keeps ((keeps_hold false none).bind fun _ => keeps_pure _) hheard) trivial
  | close => exact iff_of_true endsKept_close trivial
  | adopt => exact endsKept_adopt rfl hheard h.saved

/-- Without a room there is no private reply. -/
theorem told_of_noRoom {s : Station} {op : Operation} {faults : List Bool}
    (h : (s.perform op faults).1.room = none) : Told s op faults := by
  constructor
  · intro room hroom
    cases h.symm.trans hroom
  · intro _ after _ hroom
    cases h.symm.trans hroom

theorem told_iff_orderly {s : Station} (h : s.Heeds) (op : Operation) (faults : List Bool) :
    Told s op faults ↔ Orderly s faults op := by
  cases hroom : s.room with
  | some room =>
    exact (told_iff_endsKept (.inl (by rw [hroom]; rfl))).trans (endsKept_iff_orderly h op faults)
  | none =>
    cases hop : op.withoutRoom with
    | none => exact (told_iff_endsKept (.inr hop)).trans (endsKept_iff_orderly h op faults)
    | some answer =>
      have hperform : s.perform op faults = (s, answer) := by
        simp [Station.perform, hroom, hop]
      refine iff_of_true (told_of_noRoom (by rw [hperform, hroom])) ?_
      have hfresh : s.roomFor = { name := s.worker } := by simp [Station.roomFor, hroom]
      cases op <;> simp [Operation.withoutRoom, Orderly, hfresh] at hop ⊢

/-- What it leaves is heeded, if the law was. -/
theorem Told.heeds {s : Station} {op : Operation} {faults : List Bool} (h : s.Heeds)
    (htold : Told s op faults) : (s.perform op faults).1.Heeds := by
  refine ⟨htold.heard, ?_⟩
  have hafter {w' : World} (hroom : ∀ room, (Station.after w').room = some room → Heard room)
      (hsaved : w'.saved = s.saved ∨ w'.saved = none) :
      ∀ snap, (Station.after w').saved = some snap → snap.Heard := by
    intro snap hsnap
    simp only [Station.after] at hsnap
    split at hsnap
    · rename_i hroomed
      cases hsnap
      exact snapshotOf_heard (hroom w'.room (if_pos hroomed.1))
    · rcases hsaved with hsame | hnone
      · exact h.saved snap (hsame.symm.trans hsnap)
      · cases hnone.symm.trans hsnap
  exact Station.perform_elim (P := fun r => (∀ room, r.1.room = some room → Heard room) →
      ∀ snap, r.1.saved = some snap → snap.Heard) (fun _ _ _ _ => h.saved) (op.ends_saved _)
    (fun _ _ hsaved hroom => hafter hroom hsaved) (fun _ hsaved hroom => hafter hroom hsaved)
    htold.heard

theorem Station.Heeds.step {s : Station} (h : s.Heeds) {event : Event}
    (htold : ∀ op faults, event = .operate op faults → Told s op faults) : (s.step event).Heeds := by
  cases event with
  | operate op faults => exact (htold op faults rfl).heeds h
  | listenForDigits on =>
    refine ⟨fun room hroom => ?_, h.saved⟩
    obtain ⟨before, hbefore, rfl⟩ := Option.map_eq_some_iff.mp hroom
    exact h.heard before hbefore
  | died => exact ⟨fun _ hroom => (nomatch hroom), h.saved⟩

/-- In every run, the law holds of each operation as long as none takes a way out of it. -/
theorem told_iff (worker : Nat) (events : List Event) :
    Each Told { worker } events ↔ Each (fun s op faults => Orderly s faults op) { worker } events :=
  each_iff (I := Station.Heeds) (G := fun _ => True) (P := Told)
    (fun h op faults _ => told_iff_orderly h op faults) (fun h _ _ htold => h.step htold)
    (fresh_heeds worker) fun _ _ => trivial

/-- The only supervisor whispers and hears the agent's private reply. -/
def privateReply : List Event :=
  [.operate (.answerCustomer .webrtc) [], .operate (.answerAgent 1) [],
    .operate (.addSupervisor 2) [], .operate (.setSupervisorMode .whisper) [],
    .operate (.setAgentPrivate true) []]

/-- The supervisor reconnects: back in listen mode, and the agent is private still. -/
theorem not_told_reconnectingSupervisor :
    ¬ Each Told {} (privateReply ++ [.operate (.addSupervisor 2) []]) := by
  intro h
  have hheard := (each_last h).heard
  have hroom : ((((Station.run {} privateReply).perform (.addSupervisor 2) []).1.room).map fun room =>
      (room.agentPrivate, room.mode)) = some (true, .listen) := by decide +kernel
  obtain ⟨room, hsome, heq⟩ := Option.map_eq_some_iff.mp hroom
  have hmode := (hheard room hsome (congrArg (·.1) heq)).1
  cases hmode.symm.trans (congrArg (·.2) heq)

end Callio.RoomMedia
