import Callio.Media.Rules

/-! Whom the customer hears: over every run of room operations, after every one of
them and after every command inside it. The header of `RoomMedia` has the rules
applied after every change; an unmuted supervisor is heard until the relation that
follows. -/

namespace Callio.Rooms

open Concurrency

/-! ## What is asked -/

/-- Of the operation from the state: once done, the customer hears a supervisor only in
barge and an agent only where agent-private is off; after each of its commands nobody
is heard whom the modes before and after it both have silent. -/
structure Discreet (s : State) (op : Operation) : Prop where
  supervisors : (s.perform op).conf.Heard .supervisor → (s.perform op).room.mode = .barge
  agents : (s.perform op).conf.Heard .agent → (s.perform op).room.agentPrivate = false
  inside : ∀ e ∈ (op.code s.room).issued Cmd.exec s.conf,
    Hush (s.room.mode ≠ .barge ∧ (s.perform op).room.mode ≠ .barge)
      (s.room.agentPrivate = true ∧ (s.perform op).room.agentPrivate = true) (Cmd.exec e.2 e.1).1

/-- Of every operation of the run, from the state it finds. -/
def Along (p : State → Operation → Prop) : State → List Operation → Prop
  | _, [] => True
  | s, op :: ops => p s op ∧ Along p (s.perform op) ops

/-- The customer's leg is in the conference. -/
def State.customerIn (s : State) : Bool := s.room.customerId.any fun c => (s.conf.member c).isSome

/-- `bridge` goes on. -/
def State.bridges (s : State) : Prop := s.room.customer.any (·.answered) = true ∧ s.room.agents ≠ []

instance (s : State) : Decidable s.bridges := inferInstanceAs (Decidable (_ ∧ _))

/-- Nobody becomes audible ahead of the rules: no unmuting into whisper with the customer
there, and nobody joins whom only a relation would keep silent. -/
def Safe (s : State) : Operation → Prop
  | .setSupervisorMode mode =>
      s.room.mode = .listen → mode = .whisper → s.customerIn = false ∨ s.room.supervisors = []
  | .addSupervisor supervisorId ok => ok = true → s.room.mode = .whisper →
      s.customerIn = false ∨ s.room.supervisors.delete supervisorId = []
  | .supervisorAnswered supervisorId ok =>
      (s.room.pendingSupervisors.get supervisorId).isSome → ok = true → s.room.mode = .whisper →
        s.customerIn = false ∨ s.room.supervisors.delete supervisorId = []
  | .bridge => s.bridges →
      (s.room.customerId = none → s.room.mode = .whisper → s.room.supervisors = []) ∧
      (s.room.agentPrivate = true → s.room.customerId ≠ none ∧
        (s.customerIn = true → ∀ l ∈ s.room.agents, l.2.memberId ≠ none))
  | .startHold => s.room.customer ≠ none → s.room.agents = [] → s.room.customerId = none →
      s.room.mode = .whisper → s.room.supervisors = []
  | _ => True

instance (s : State) : (op : Operation) → Decidable (Safe s op)
  | .setSupervisorMode _ | .addSupervisor .. | .supervisorAnswered .. | .startHold | .bridge => by
      unfold Safe; infer_instance
  | .newCustomer .. | .customerAnswered _ | .offerAgent _ | .agentAccepted .. | .answerAgent .. | .dropAgent _
  | .offerSupervisor .. | .setAgentPrivate _ | .removeSupervisor _ | .stopHold | .close => isTrue trivial

instance decidableAlong (p : State → Operation → Prop) [∀ s op, Decidable (p s op)] :
    (s : State) → (ops : List Operation) → Decidable (Along p s ops)
  | _, [] => isTrue trivial
  | s, op :: ops =>
    have := decidableAlong p (s.perform op) ops
    inferInstanceAs (Decidable (_ ∧ _))

/-! ## One operation -/

structure Sound (room : Room) (conf : Conference) : Prop where
  seated : Seated room conf
  obeys : Obeys room.mode room.agentPrivate conf

/-- What an operation keeps, and whom no command of it lets be heard. -/
def Keeps (s : State) (op : Operation) : Prop :=
  ∃ P Q : Prop, (op.code s.room).Always Cmd.exec (Hush P Q) s.conf fun room conf =>
    Sound room conf ∧ (s.room.mode ≠ .barge → room.mode ≠ .barge → P) ∧
      (s.room.agentPrivate = true → room.agentPrivate = true → Q)

theorem Keeps.sound {s : State} {op : Operation} (h : Keeps s op) :
    Sound (s.perform op).room (s.perform op).conf := by
  obtain ⟨P, Q, h⟩ := h
  exact h.eval.1

theorem Keeps.discreet {s : State} {op : Operation} (h : Keeps s op) : Discreet s op := by
  have hs := h.sound
  obtain ⟨P, Q, h⟩ := h
  obtain ⟨-, hP, hQ⟩ := h.eval
  constructor
  · intro hheard
    by_contra hm
    exact hs.obeys.not_heard hm hheard
  · intro hheard
    rw [← Bool.not_eq_true]
    intro ha
    exact (hs.obeys.agents ha).not_heard hheard
  · intro e he
    obtain ⟨hsup, hag⟩ := h.issued e he
    exact ⟨fun hp => hsup (hP hp.1 hp.2), fun hq => hag (hQ hq.1 hq.2)⟩

section steps

variable {s : State}

theorem Seated.no_customer (h : Seated s.room s.conf) (hc : s.customerIn = false) (c : Nat) :
    ¬s.conf.Has c .customer := by
  intro hcust
  have hid := h.customerId hcust
  obtain ⟨muted, hcust⟩ := hcust
  simp [State.customerIn, hid, hcust] at hc

theorem Sound.hush (h : Sound s.room s.conf) (conf : Conference) (hf : Fewer s.conf conf) :
    Hush (s.room.mode ≠ .barge) (s.room.agentPrivate = true) conf :=
  (hf.obeys h.obeys).hush id id

theorem keeps_of_sound {op : Operation}
    (h : (op.code s.room).Always Cmd.exec (Hush (s.room.mode ≠ .barge) (s.room.agentPrivate = true)) s.conf
      fun room conf => Sound room conf) : Keeps s op :=
  ⟨_, _, h.mono fun _ _ hs => ⟨hs, fun hm _ => hm, fun ha _ => ha⟩⟩

theorem newCustomer_keeps (h : Sound s.room s.conf) (answered ok : Bool) : Keeps s (.newCustomer answered ok) := by
  apply keeps_of_sound
  apply (destroyLeg_always h.hush s.room.customer).bind
  rintro - conf ⟨hf, hgone⟩
  have hs := h.seated
  split
  · refine ⟨hs.fewer hf ⟨?_, ?_⟩ ⟨hs.agentKeys, .refl ..⟩ ⟨hs.supervisorKeys, .refl ..⟩ hs.pendingAgent
      hs.pendingSupervisors, hf.obeys h.obeys⟩
    · intro leg hleg
      rw [Option.mem_toList] at hleg
      cases hleg
      exact .inr rfl
    · intro leg hleg
      rw [Option.mem_toList] at hleg
      exact .inr (hgone leg hleg)
  · exact ⟨hs.fewer hf (.refl ..) ⟨hs.agentKeys, .refl ..⟩ ⟨hs.supervisorKeys, .refl ..⟩ hs.pendingAgent
      hs.pendingSupervisors, hf.obeys h.obeys⟩

theorem customerAnswered_keeps (h : Sound s.room s.conf) (ok : Bool) : Keeps s (.customerAnswered ok) := by
  apply keeps_of_sound
  change (customerAnswered ok s.room).Always _ _ _ _
  unfold customerAnswered
  cases hc : s.room.customer with
  | none => exact h
  | some leg =>
    cases ok with
    | false => exact h
    | true =>
      have hcust := h.seated.customers
      rw [hc] at hcust
      refine ⟨{ h.seated with customers := ?_ }, h.obeys⟩
      constructor
      · intro m hm
        obtain ⟨l, hl, hid⟩ := hcust.listed m hm
        rw [Option.mem_toList, Option.some_inj] at hl
        subst hl
        exact ⟨_, Option.mem_toList.mpr rfl, hid⟩
      · intro l hl m hid
        rw [Option.mem_toList, Option.some_inj] at hl
        subst hl
        exact hcust.own leg (Option.mem_toList.mpr rfl) m hid

theorem offerAgent_keeps (h : Sound s.room s.conf) (ok : Bool) : Keeps s (.offerAgent ok) := by
  apply keeps_of_sound
  apply (destroyLeg_always h.hush s.room.pendingAgent).bind
  rintro - conf ⟨hf, -⟩
  have hs := h.seated
  refine ⟨hs.fewer hf (.refl ..) ⟨hs.agentKeys, .refl ..⟩ ⟨hs.supervisorKeys, .refl ..⟩ ?_
      hs.pendingSupervisors, hf.obeys h.obeys⟩
  intro leg hleg
  cases ok with
  | false => cases hleg
  | true =>
    cases hleg
    rfl

theorem agentAccepted_keeps (h : Sound s.room s.conf) (agentId : Nat) (ok : Bool) :
    Keeps s (.agentAccepted agentId ok) := by
  apply keeps_of_sound
  change (agentAccepted agentId ok s.room).Always _ _ _ _
  unfold agentAccepted
  have hs := h.seated
  cases hp : s.room.pendingAgent with
  | none => exact h
  | some leg =>
    cases ok with
    | true =>
      apply (destroyLeg_always h.hush (s.room.agents.get agentId)).bind
      rintro - conf ⟨hf, hgone⟩
      exact ⟨hs.fewer hf (.refl ..) ⟨hs.agentKeys.set _ _, .set (hs.pendingAgent leg hp) hgone⟩
        ⟨hs.supervisorKeys, .refl ..⟩ nofun hs.pendingSupervisors, hf.obeys h.obeys⟩
    | false =>
      apply (destroyLeg_always h.hush (some leg)).bind
      rintro - conf ⟨hf, -⟩
      exact ⟨hs.fewer hf (.refl ..) ⟨hs.agentKeys, .refl ..⟩ ⟨hs.supervisorKeys, .refl ..⟩ nofun
        hs.pendingSupervisors, hf.obeys h.obeys⟩

theorem answerAgent_keeps (h : Sound s.room s.conf) (agentId : Nat) (ok : Bool) :
    Keeps s (.answerAgent agentId ok) := by
  apply keeps_of_sound
  apply (dropPrevious_always h.hush s.room.agents agentId).bind
  rintro _ conf ⟨rfl, hf, hr⟩
  have hs := h.seated
  have hkeys := hs.agentKeys.delete agentId
  split
  · have hnew : Replaces conf ((s.room.agents.delete agentId).map Prod.snd)
        (((s.room.agents.delete agentId).set agentId { answered := true }).map Prod.snd) := by
      apply Replaces.set rfl
      rw [hs.agentKeys.get_delete]
      exact nofun
    exact ⟨hs.fewer hf (.refl ..) ⟨hkeys.set _ _, hr.trans (.refl _) hnew⟩ ⟨hs.supervisorKeys, .refl ..⟩
      hs.pendingAgent hs.pendingSupervisors, hf.obeys h.obeys⟩
  · exact ⟨hs.fewer hf (.refl ..) ⟨hkeys, hr⟩ ⟨hs.supervisorKeys, .refl ..⟩ hs.pendingAgent
      hs.pendingSupervisors, hf.obeys h.obeys⟩

theorem offerSupervisor_keeps (h : Sound s.room s.conf) (supervisorId : Nat) (ok : Bool) :
    Keeps s (.offerSupervisor supervisorId ok) := by
  apply keeps_of_sound
  apply (destroyLeg_always h.hush (s.room.pendingSupervisors.get supervisorId)).bind
  rintro - conf ⟨hf, -⟩
  have hs := h.seated
  split
  · refine ⟨hs.fewer hf (.refl ..) ⟨hs.agentKeys, .refl ..⟩ ⟨hs.supervisorKeys, .refl ..⟩ hs.pendingAgent ?_,
      hf.obeys h.obeys⟩
    intro leg hleg
    obtain ⟨l, hl, rfl⟩ := List.mem_map.mp hleg
    rcases Legs.mem_set hl with hl | rfl
    · exact hs.pendingSupervisors _ (List.mem_map_of_mem hl)
    · rfl
  · exact ⟨hs.fewer hf (.refl ..) ⟨hs.agentKeys, .refl ..⟩ ⟨hs.supervisorKeys, .refl ..⟩ hs.pendingAgent
      hs.pendingSupervisors, hf.obeys h.obeys⟩

theorem stopHold_keeps (h : Sound s.room s.conf) : Keeps s .stopHold := by
  apply keeps_of_sound
  apply (hold_always (h.hush _ (.refl _)) s.room false).mono
  rintro _ _ ⟨rfl, rfl | rfl⟩
  · exact h
  · exact ⟨{ h.seated with }, h.obeys⟩

theorem dropAgent_keeps (h : Sound s.room s.conf) (agentId : Option Nat) : Keeps s (.dropAgent agentId) := by
  apply keeps_of_sound
  apply (removeLegs_always h.hush _ s.room.agents).bind
  rintro agents conf ⟨hagents, hf, hr⟩
  have hs := h.seated
  have hkeys : agents.Keyed := by
    rw [hagents]
    exact hs.agentKeys.foldl_delete _
  have hseated : Seated { s.room with agents } conf :=
    hs.fewer hf (.refl ..) ⟨hkeys, hr⟩ ⟨hs.supervisorKeys, .refl ..⟩ hs.pendingAgent hs.pendingSupervisors
  have hobeys := hf.obeys h.obeys
  dsimp only
  split
  · have hoff : Obeys s.room.mode false conf := ⟨hobeys.listen, hobeys.whisper, nofun⟩
    apply (tone_always (h.hush conf hf) _ true).mono
    rintro _ _ ⟨rfl, rfl | rfl⟩
    · exact ⟨{ hseated with }, hoff⟩
    · exact ⟨{ hseated with }, hoff⟩
  · exact ⟨hseated, hobeys⟩

theorem close_keeps (h : Sound s.room s.conf) : Keeps s .close := by
  apply keeps_of_sound
  apply (destroyLegs_always h.hush _).bind
  rintro - conf ⟨hf, hgone⟩
  have hempty : Seated {} conf := by
    refine h.seated.fewer hf ⟨nofun, ?_⟩ ⟨List.nodup_nil, nofun, ?_⟩ ⟨List.nodup_nil, nofun, ?_⟩ nofun nofun
    · exact fun leg hleg => .inr (hgone leg (by simp [hleg]))
    · exact fun leg hleg => .inr (hgone leg (by simp only [List.mem_append, hleg, or_true, true_or]))
    · exact fun leg hleg => .inr (hgone leg (by simp only [List.mem_append, hleg, or_true, true_or]))
  exact ⟨hempty, fun _ => hempty.muted_of_nil rfl, nofun, nofun⟩

/-! ### With the rules -/

theorem setSupervisorMode_keeps (h : Sound s.room s.conf) (mode : Mode) (hsafe : Safe s (.setSupervisorMode mode)) :
    Keeps s (.setSupervisorMode mode) := by
  have hready : s.room.mode ≠ .barge → Ready mode s.conf := by
    intro hm
    refine ⟨fun _ => h.obeys.not_heard hm, fun hw => ?_⟩
    cases hmode : s.room.mode with
    | listen =>
      rcases hsafe hmode hw with hc | hnil
      · exact Conference.quiet_of_no_customer (h.seated.no_customer hc)
      · exact h.seated.quiet_of_nil hnil
    | whisper => exact h.obeys.whisper hmode
    | barge => exact absurd hmode hm
  have hs : Seated { s.room with mode, agentPrivate := s.room.agentPrivate && mode = .whisper } s.conf :=
    { h.seated with }
  refine ⟨s.room.mode ≠ .barge ∧ mode ≠ .barge, s.room.agentPrivate = true ∧ mode = .whisper, ?_⟩
  apply (rules_always hs (fun hp => ⟨hp.2, hready hp.1⟩) fun hq => ?_).bind
  · rintro - conf ⟨hs', ho⟩
    refine ⟨⟨hs', ho⟩, And.intro, fun ha ha' => ⟨ha, ?_⟩⟩
    simpa [ha] using ha'
  · simp [hq.1, hq.2, h.obeys.agents hq.1]

theorem setAgentPrivate_keeps (h : Sound s.room s.conf) (active : Bool) : Keeps s (.setAgentPrivate active) := by
  let agentPrivate := active && decide (s.room.mode = .whisper ∧ s.room.supervisors ≠ [])
  have hs : Seated { s.room with agentPrivate } s.conf := { h.seated with }
  refine ⟨s.room.mode ≠ .barge, s.room.agentPrivate = true ∧ agentPrivate = true, ?_⟩
  apply (rules_always hs (fun hm => ⟨hm, h.obeys.ready⟩) fun hq => ⟨hq.2, h.obeys.agents hq.1⟩).bind
  rintro - conf ⟨hs', ho⟩
  exact ⟨⟨hs', ho⟩, fun hm _ => hm, And.intro⟩

theorem removeSupervisor_keeps (h : Sound s.room s.conf) (supervisorId : Option Nat) :
    Keeps s (.removeSupervisor supervisorId) := by
  obtain ⟨ids, hcode⟩ : ∃ ids, (Operation.removeSupervisor supervisorId).code s.room = (do
      let supervisors ← removeLegs ids s.room.supervisors
      let room := { s.room with supervisors }
      let room := if supervisors.isEmpty then { room with agentPrivate := false, mode := .listen } else room
      rules room
      return room) := by
    cases supervisorId with
    | none => exact ⟨_, rfl⟩
    | some id => exact ⟨_, rfl⟩
  let supervisors := ids.foldl Legs.delete s.room.supervisors
  refine ⟨s.room.mode ≠ .barge, s.room.agentPrivate = true ∧ supervisors.isEmpty = false, ?_⟩
  have hhush : ∀ conf, Fewer s.conf conf →
      Hush (s.room.mode ≠ .barge) (s.room.agentPrivate = true ∧ supervisors.isEmpty = false) conf :=
    fun conf hf => (hf.obeys h.obeys).hush id And.left
  rw [hcode]
  apply (removeLegs_always hhush ids s.room.supervisors).bind
  rintro legs conf ⟨rfl, hf, hr⟩
  have hs : Seated { s.room with supervisors } conf :=
    h.seated.fewer hf (.refl ..) ⟨h.seated.agentKeys, .refl ..⟩ ⟨h.seated.supervisorKeys.foldl_delete _, hr⟩
      h.seated.pendingAgent h.seated.pendingSupervisors
  have ho := hf.obeys h.obeys
  dsimp only
  split
  · have hnil : supervisors = [] := List.isEmpty_iff.mp ‹_›
    have hready : Ready .listen conf := ⟨fun _ => (hs.muted_of_nil hnil).not_heard, fun h => by cases h⟩
    have hs' : Seated { s.room with supervisors, agentPrivate := false, mode := .listen } conf := { hs with }
    apply (rules_always hs' (fun _ => ⟨fun h => (by cases h), hready⟩) fun hq => ?_).bind
    · rintro - conf' ⟨hs', ho'⟩
      exact ⟨⟨hs', ho'⟩, fun hm _ => hm, fun _ h => by cases h⟩
    · rw [hnil] at hq
      exact absurd hq.2 (by simp)
  · apply (rules_always hs (fun hm => ⟨hm, ho.ready⟩) fun hq => ⟨hq.1, ho.agents hq.1⟩).bind
    rintro - conf' ⟨hs', ho'⟩
    refine ⟨⟨hs', ho'⟩, fun hm _ => hm, fun ha _ => ⟨ha, ?_⟩⟩
    rwa [← Bool.not_eq_true]

/-! ### With somebody joining -/

theorem joinSupervisor_sound {room : Room} {conf : Conference} (hs : Seated room conf)
    (ho : Obeys room.mode room.agentPrivate conf) {supervisorId : Nat} {leg : Leg} (hleg : leg.memberId = none)
    (hget : room.supervisors.get supervisorId = none)
    (hsafe : room.mode = .whisper → (∀ c, ¬conf.Has c .customer) ∨ room.supervisors = []) :
    (joinSupervisor supervisorId leg room).Always Cmd.exec
      (Hush (room.mode ≠ .barge) (room.agentPrivate = true)) conf Sound := by
  let mode := if room.supervisors.isEmpty then .listen else room.mode
  have hmode : room.mode ≠ .barge → mode ≠ .barge := by
    intro hm
    dsimp only [mode]
    split
    · nofun
    · exact hm
  have ho₁ : Obeys mode room.agentPrivate (conf.joined .supervisor true) := by
    by_cases hnil : room.supervisors = []
    · have hl : Obeys .listen room.agentPrivate conf := ⟨fun _ => hs.muted_of_nil hnil, nofun, ho.agents⟩
      simp only [mode, List.isEmpty_iff.mpr hnil, if_true]
      exact hl.joined_supervisor nofun
    · have hm : mode = room.mode := if_neg (by simpa using hnil)
      rw [hm]
      exact ho.joined_supervisor fun hw => (hsafe hw).resolve_right hnil
  have hs₁ : Seated { room with mode, supervisors := room.supervisors.set supervisorId { leg with memberId := some conf.nextId } }
      (conf.joined .supervisor true) :=
    { agentKeys := hs.agentKeys
      supervisorKeys := hs.supervisorKeys.set _ _
      customers := hs.customers.joined (by decide)
      agents := hs.agents.joined (by decide)
      supervisors := hs.supervisors.joined_set hget
      pendingAgent := hs.pendingAgent
      pendingSupervisors := hs.pendingSupervisors }
  have heq : joinSupervisor supervisorId leg room = do
      let leg ← join .supervisor leg true
      rules { room with mode, supervisors := room.supervisors.set supervisorId leg }
      return { room with mode, supervisors := room.supervisors.set supervisorId leg } := by
    unfold joinSupervisor
    dsimp only [mode]
    split <;> rfl
  rw [heq]
  apply (join_always fun _ => ho₁.hush hmode id).bind
  rintro leg' conf' (⟨hno, -, -⟩ | ⟨-, rfl, rfl⟩)
  · exact absurd hleg hno
  · apply (rules_always hs₁ (fun hm => ⟨hmode hm, ho₁.ready⟩) fun ha => ⟨ha, ho₁.agents ha⟩).bind
    rintro - conf'' ⟨hs'', ho''⟩
    exact ⟨hs'', ho''⟩

theorem addSupervisor_keeps (h : Sound s.room s.conf) (supervisorId : Nat) (ok : Bool)
    (hsafe : Safe s (.addSupervisor supervisorId ok)) : Keeps s (.addSupervisor supervisorId ok) := by
  apply keeps_of_sound
  apply (dropPrevious_always h.hush s.room.supervisors supervisorId).bind
  rintro _ conf ⟨rfl, hf, hr⟩
  have hs := h.seated
  have hs₁ : Seated { s.room with supervisors := s.room.supervisors.delete supervisorId } conf :=
    hs.fewer hf (.refl ..) ⟨hs.agentKeys, .refl ..⟩ ⟨hs.supervisorKeys.delete _, hr⟩ hs.pendingAgent
      hs.pendingSupervisors
  have ho₁ := hf.obeys h.obeys
  dsimp only
  split
  · apply joinSupervisor_sound hs₁ ho₁ rfl (hs.supervisorKeys.get_delete _)
    intro hw
    refine (hsafe ‹_› hw).imp_left fun hc c hcust => ?_
    exact hs.no_customer hc c (hf.has hcust)
  · exact ⟨hs₁, ho₁⟩

theorem supervisorAnswered_keeps (h : Sound s.room s.conf) (supervisorId : Nat) (ok : Bool)
    (hsafe : Safe s (.supervisorAnswered supervisorId ok)) : Keeps s (.supervisorAnswered supervisorId ok) := by
  apply keeps_of_sound
  change (supervisorAnswered supervisorId ok s.room).Always _ _ _ _
  unfold supervisorAnswered
  have hs := h.seated
  cases hp : s.room.pendingSupervisors.get supervisorId with
  | none => exact h
  | some leg =>
    have hleg : leg.memberId = none := hs.pendingSupervisors leg (List.mem_map_of_mem (Legs.mem_of_get hp))
    have hpending : ∀ l ∈ (s.room.pendingSupervisors.delete supervisorId).map Prod.snd, l.memberId = none := by
      intro l hl
      obtain ⟨x, hx, rfl⟩ := List.mem_map.mp hl
      exact hs.pendingSupervisors _ (List.mem_map_of_mem (Legs.mem_of_mem_delete hx))
    cases ok with
    | false => exact ⟨{ hs with pendingSupervisors := hpending }, h.obeys⟩
    | true =>
      apply (dropPrevious_always h.hush s.room.supervisors supervisorId).bind
      rintro _ conf ⟨rfl, hf, hr⟩
      have hs₁ : Seated { s.room with
          pendingSupervisors := s.room.pendingSupervisors.delete supervisorId
          supervisors := s.room.supervisors.delete supervisorId } conf :=
        hs.fewer hf (.refl ..) ⟨hs.agentKeys, .refl ..⟩ ⟨hs.supervisorKeys.delete _, hr⟩ hs.pendingAgent hpending
      have hleg' : ({ leg with answered := true } : Leg).memberId = none := hleg
      apply joinSupervisor_sound hs₁ (hf.obeys h.obeys) hleg' (hs.supervisorKeys.get_delete _)
      intro hw
      refine (hsafe (by rw [hp]; rfl) rfl hw).imp_left fun hc c hcust => ?_
      exact hs.no_customer hc c (hf.has hcust)

/-- The customer joins, if the leg has not, where nobody has to be kept from them. -/
theorem enterCustomer_sound {room : Room} {conf : Conference} (h : Sound room conf)
    (hw : room.customerId = none → room.mode = .whisper → ∀ m, ¬conf.Has m .supervisor)
    (ha : room.customerId = none → room.agentPrivate = true → ∀ m, ¬conf.Has m .agent) :
    (enterCustomer room).Always Cmd.exec (Hush (room.mode ≠ .barge) (room.agentPrivate = true)) conf
      fun room' conf' => Sound room' conf' ∧ ∃ customer, room' = { room with customer } := by
  apply (breakLeg_always (h.obeys.hush id id) room.customer).bind
  rintro - conf rfl
  unfold joinCustomer
  cases hc : room.customer with
  | none => exact ⟨h, none, by rw [← hc]⟩
  | some leg =>
    have hid : room.customerId = leg.memberId := by rw [Room.customerId, hc]; rfl
    have hcust := h.seated.customers
    rw [hc] at hcust
    rw [hid] at hw ha
    have ho : leg.memberId = none → Obeys room.mode room.agentPrivate (conf.joined .customer false) :=
      fun hno => h.obeys.joined_customer (hw hno) (ha hno)
    apply (join_always fun hno => (ho hno).hush id id).bind
    rintro leg' conf' (⟨-, rfl, rfl⟩ | ⟨hno, rfl, rfl⟩)
    · exact ⟨⟨{ h.seated with customers := hcust }, h.obeys⟩, _, rfl⟩
    · have hcust' : Lists (conf.joined .customer false) .customer [{ leg with memberId := some conf.nextId }] := by
        apply hcust.joined_self
        · intro l hl
          rw [List.mem_singleton] at hl
          subst hl
          exact .inr (.inl rfl)
        · intro l hl
          rw [Option.mem_toList, Option.some_inj] at hl
          subst hl
          exact .inr hno
        · exact ⟨_, List.mem_singleton.mpr rfl, rfl⟩
      refine ⟨⟨?_, ho hno⟩, _, rfl⟩
      exact { agentKeys := h.seated.agentKeys
              supervisorKeys := h.seated.supervisorKeys
              customers := hcust'
              agents := h.seated.agents.joined (by decide)
              supervisors := h.seated.supervisors.joined (by decide)
              pendingAgent := h.seated.pendingAgent
              pendingSupervisors := h.seated.pendingSupervisors }

theorem startHold_keeps (h : Sound s.room s.conf) (hsafe : Safe s .startHold) : Keeps s .startHold := by
  apply keeps_of_sound
  change (startHold s.room).Always _ _ _ _
  unfold startHold
  split
  · exact h
  · rename_i hgo
    rw [not_or, Option.isNone_iff_eq_none, not_not] at hgo
    obtain ⟨hcust, hnil⟩ := hgo
    have hsups := h.seated.supervisors
    have hagents := h.seated.agents
    rw [hnil] at hagents
    apply (enterCustomer_sound h ?_ fun _ _ => hagents.none).bind
    · rintro _ conf ⟨h', customer, rfl⟩
      apply (hold_always (h'.obeys.hush id id) _ true).mono
      rintro _ _ ⟨rfl, rfl | rfl⟩
      · exact h'
      · exact ⟨{ h'.seated with }, h'.obeys⟩
    · intro hid hw
      rw [hsafe hcust hnil hid hw] at hsups
      exact hsups.none

/-- Before the agents join, agent-private has nobody to keep from the customer, or they
are all in the conference already. -/
theorem enterIfOut_sound (h : Sound s.room s.conf) (hsafe : Safe s .bridge) (hgo : s.bridges) :
    (enterIfOut s.room).Always Cmd.exec (Hush (s.room.mode ≠ .barge) (s.room.agentPrivate = true)) s.conf
      fun room conf => (Sound room conf ∧ ∃ customer, room = { s.room with customer }) ∧
        (s.room.agentPrivate = true → (∀ c, ¬conf.Has c .customer) ∨ ∀ l ∈ s.room.agents, l.2.memberId ≠ none) := by
  obtain ⟨hw, ha⟩ := hsafe hgo
  unfold enterIfOut
  split
  · have hid : s.room.customerId = none := by rwa [Option.isNone_iff_eq_none] at *
    apply (enterCustomer_sound h (fun _ hm => ?_) fun _ hp => absurd hid (ha hp).1).mono
    · exact fun room conf hr => ⟨hr, fun hp => absurd hid (ha hp).1⟩
    · have hsups := h.seated.supervisors
      rw [hw hid hm] at hsups
      exact hsups.none
  · refine ⟨⟨h, s.room.customer, rfl⟩, fun hp => ?_⟩
    cases hc : s.customerIn with
    | false => exact .inl (h.seated.no_customer hc)
    | true => exact .inr ((ha hp).2 hc)

theorem bridge_keeps (h : Sound s.room s.conf) (hsafe : Safe s .bridge) : Keeps s .bridge := by
  apply keeps_of_sound
  change (bridge s.room).Always _ _ _ _
  unfold bridge
  split
  · exact h
  · rename_i hgo
    rw [not_or, Bool.not_eq_false, List.isEmpty_iff] at hgo
    apply (enterIfOut_sound h hsafe hgo).bind
    rintro _ conf₁ ⟨⟨h₁, customer, rfl⟩, hpriv⟩
    apply (hold_always (h₁.obeys.hush id id) _ false).bind
    intro room₂ conf₂ hhold
    have h₂ : Sound room₂ conf₂ ∧ conf₂ = conf₁ ∧ room₂.mode = s.room.mode ∧
        room₂.agentPrivate = s.room.agentPrivate ∧ room₂.agents = s.room.agents := by
      obtain ⟨rfl, rfl | rfl⟩ := hhold
      · exact ⟨h₁, rfl, rfl, rfl, rfl⟩
      · exact ⟨⟨{ h₁.seated with }, h₁.obeys⟩, rfl, rfl, rfl, rfl⟩
    obtain ⟨h₂, rfl, hmode, hap, hagents⟩ := h₂
    rw [← hagents, ← hap] at hpriv
    rw [← hap, ← hmode]
    apply (joinAgents_always [] h₂.seated.customers h₂.seated.supervisors h₂.seated.agents h₂.obeys
      hpriv).bind
    rintro agents conf₃ ⟨hkeys, hcusts, hsups, hags, ho₃⟩
    have h₃ : Seated { room₂ with agents } conf₃ :=
      { agentKeys := by
          change (agents.map Prod.fst).Nodup
          rw [hkeys]
          exact h₂.seated.agentKeys
        supervisorKeys := h₂.seated.supervisorKeys
        customers := hcusts
        agents := hags
        supervisors := hsups
        pendingAgent := h₂.seated.pendingAgent
        pendingSupervisors := h₂.seated.pendingSupervisors }
    apply (tone_always (ho₃.hush id id) _ false).bind
    intro room₄ conf₄ htone
    have h₄ : Sound room₄ conf₄ ∧ room₄.mode = room₂.mode ∧ room₄.agentPrivate = room₂.agentPrivate := by
      obtain ⟨rfl, rfl | rfl⟩ := htone
      · exact ⟨⟨h₃, ho₃⟩, rfl, rfl⟩
      · exact ⟨⟨{ h₃ with }, ho₃⟩, rfl, rfl⟩
    obtain ⟨h₄, hmode₄, hap₄⟩ := h₄
    rw [← hmode₄, ← hap₄]
    apply (rules_always h₄.seated (fun hm => ⟨hm, h₄.obeys.ready⟩) fun hp => ⟨hp, h₄.obeys.agents hp⟩).bind
    rintro - conf₅ ⟨hs₅, ho₅⟩
    exact ⟨{ hs₅ with }, ho₅⟩

end steps

theorem keeps_of_safe {s : State} (h : Sound s.room s.conf) (op : Operation) (hsafe : Safe s op) : Keeps s op := by
  cases op with
  | newCustomer answered ok => exact newCustomer_keeps h answered ok
  | customerAnswered ok => exact customerAnswered_keeps h ok
  | offerAgent ok => exact offerAgent_keeps h ok
  | agentAccepted agentId ok => exact agentAccepted_keeps h agentId ok
  | answerAgent agentId ok => exact answerAgent_keeps h agentId ok
  | dropAgent agentId => exact dropAgent_keeps h agentId
  | bridge => exact bridge_keeps h hsafe
  | addSupervisor supervisorId ok => exact addSupervisor_keeps h supervisorId ok hsafe
  | offerSupervisor supervisorId ok => exact offerSupervisor_keeps h supervisorId ok
  | supervisorAnswered supervisorId ok => exact supervisorAnswered_keeps h supervisorId ok hsafe
  | setSupervisorMode mode => exact setSupervisorMode_keeps h mode hsafe
  | setAgentPrivate active => exact setAgentPrivate_keeps h active
  | removeSupervisor supervisorId => exact removeSupervisor_keeps h supervisorId
  | startHold => exact startHold_keeps h hsafe
  | stopHold => exact stopHold_keeps h
  | close => exact close_keeps h

/-! ## Every run -/

theorem sound_init : Sound {} {} := by
  have hno : ∀ m kind, ¬({} : Conference).Has m kind := fun m kind ⟨_, hm⟩ => nomatch hm
  have hl : ∀ kind, Lists {} kind [] := fun kind => ⟨fun m hm => absurd hm (hno m kind), nofun⟩
  refine ⟨⟨List.nodup_nil, List.nodup_nil, hl _, hl _, hl _, nofun, nofun⟩, ?_, nofun, nofun⟩
  intro _ m hm
  cases hm

theorem Sound.along {s : State} (h : Sound s.room s.conf) {ops : List Operation} (hops : Along Safe s ops) :
    Along Discreet s ops := by
  induction ops generalizing s with
  | nil => trivial
  | cons op ops ih =>
    have hk := keeps_of_safe h op hops.1
    exact ⟨hk.discreet, ih hk.sound hops.2⟩

/-- Over every run of safe operations the customer hears who they may, after every
operation and after every command. -/
theorem discreet_of_safe (ops : List Operation) (h : Along Safe {} ops) : Along Discreet {} ops :=
  sound_init.along h

/-- An agent's call, a supervisor in whisper over barge, then agent-private. -/
theorem discreet_supervised : Along Safe {} [.newCustomer true true, .offerAgent true, .agentAccepted 1 true,
      .bridge, .addSupervisor 9 true, .setSupervisorMode .barge, .setSupervisorMode .whisper, .setAgentPrivate true,
      .bridge] ∧
    Along Discreet {} [.newCustomer true true, .offerAgent true, .agentAccepted 1 true, .bridge,
      .addSupervisor 9 true, .setSupervisorMode .barge, .setSupervisorMode .whisper, .setAgentPrivate true,
      .bridge] := by
  have h : Along Safe {} [.newCustomer true true, .offerAgent true, .agentAccepted 1 true, .bridge,
      .addSupervisor 9 true, .setSupervisorMode .barge, .setSupervisorMode .whisper, .setAgentPrivate true,
      .bridge] := by decide
  exact ⟨h, discreet_of_safe _ h⟩

/-- From listen to whisper, the supervisor is unmuted and then kept from the customer,
who hears them in between. -/
theorem not_discreet_whisper : ¬Along Discreet {} [.newCustomer true true, .offerAgent true,
    .agentAccepted 1 true, .bridge, .addSupervisor 9 true, .setSupervisorMode .whisper] := by
  rintro ⟨-, -, -, -, -, h, -⟩
  obtain ⟨hs, -⟩ := h.inside _ List.mem_cons_self
  exact hs ⟨nofun, nofun⟩ ⟨3, 1, false, rfl, rfl, rfl⟩

end Callio.Rooms
