import Callio.Media.Audibility

/-! The audibility rules of a room (`_rules`) command by command, and who may join
ahead of them. -/

namespace Callio.Rooms

open Concurrency

/-! ## The rules -/

/-- Where the rules of the mode may start with no supervisor heard. -/
structure Ready (mode : Mode) (conf : Conference) : Prop where
  listen : mode = .listen → ¬conf.Heard .supervisor
  whisper : mode = .whisper → conf.Quiet .supervisor

theorem Ready.not_heard {mode : Mode} {conf : Conference} (h : Ready mode conf) (hm : mode ≠ .barge) :
    ¬conf.Heard .supervisor := by
  cases mode with
  | listen => exact h.listen rfl
  | whisper => exact (h.whisper rfl).not_heard
  | barge => exact absurd rfl hm

theorem Obeys.ready {mode : Mode} {agentPrivate : Bool} {conf : Conference} (h : Obeys mode agentPrivate conf) :
    Ready mode conf :=
  ⟨fun hm => (h.listen hm).not_heard, h.whisper⟩

/-- The rules were applied to the supervisor's leg. -/
structure Ruled (mode : Mode) (cust : Option Nat) (conf : Conference) (leg : Leg) : Prop where
  listen : mode = .listen → ∀ m, leg.memberId = some m → conf.member m ≠ some ⟨.supervisor, false⟩
  whisper : mode = .whisper → ∀ m c, leg.memberId = some m → cust = some c → conf.Has m .supervisor →
    conf.Has c .customer → conf.nospeak m c = true

/-- What commands of the rules for supervisors leave as it is. -/
structure Steered (mode : Mode) (cust : Option Nat) (conf conf' : Conference) : Prop where
  has : ∀ m kind, conf'.Has m kind ↔ conf.Has m kind
  nextId : conf'.nextId = conf.nextId
  agents : ∀ m c, conf.Has m .agent → conf'.nospeak m c = conf.nospeak m c
  ready : Ready mode conf → Ready mode conf'
  ruled : ∀ leg, Ruled mode cust conf leg → Ruled mode cust conf' leg

namespace Steered

variable {mode : Mode} {cust : Option Nat} {conf conf' conf'' : Conference}

theorem refl (conf : Conference) : Steered mode cust conf conf :=
  ⟨fun _ _ => .rfl, rfl, fun _ _ _ => rfl, id, fun _ => id⟩

theorem trans (h : Steered mode cust conf conf') (h' : Steered mode cust conf' conf'') :
    Steered mode cust conf conf'' where
  has m kind := (h'.has m kind).trans (h.has m kind)
  nextId := h'.nextId.trans h.nextId
  agents m c hm := (h'.agents m c ((h.has m .agent).mpr hm)).trans (h.agents m c hm)
  ready hr := h'.ready (h.ready hr)
  ruled leg hl := h'.ruled leg (h.ruled leg hl)

theorem quiet (h : Steered mode cust conf conf') (hq : conf.Quiet .agent) : conf'.Quiet .agent := by
  intro m c hm hc
  have hm' := (h.has m .agent).mp hm
  rw [h.agents m c hm']
  exact hq m c hm' ((h.has c .customer).mp hc)

/-- Muting in listen mode, unmuting in the others. -/
theorem setMuted {m : Nat} {muted : Bool} (hm : mode = .listen → muted = true) :
    Steered mode cust conf (conf.setMuted m muted) where
  has _ _ := Conference.has_setMuted
  nextId := rfl
  agents _ _ _ := rfl
  ready hr := by
    constructor
    · intro hl
      have hn := hr.listen hl
      rw [Conference.heard_iff] at hn ⊢
      rintro ⟨x, c, hx, hc, hs⟩
      rw [Conference.member_setMuted, hm hl] at hx
      split at hx
      · cases hy : conf.member m <;> simp [hy] at hx
      · exact hn ⟨x, c, hx, Conference.has_setMuted.mp hc, hs⟩
    · intro hw x c hx hc
      exact hr.whisper hw x c (Conference.has_setMuted.mp hx) (Conference.has_setMuted.mp hc)
  ruled leg hr := by
    constructor
    · intro hl x hleg hx
      rw [Conference.member_setMuted, hm hl] at hx
      split at hx
      · cases hy : conf.member m <;> simp [hy] at hx
      · exact hr.listen hl x hleg hx
    · intro hw x c hleg hcust hx hc
      exact hr.whisper hw x c hleg hcust (Conference.has_setMuted.mp hx) (Conference.has_setMuted.mp hc)

/-- The supervisor's relation to the customer; in listen mode the supervisor is muted. -/
theorem relate {m c : Nat} (hown : ∀ kind, conf.Has m kind → kind = .supervisor)
    (hm : mode = .listen → conf.member m ≠ some ⟨.supervisor, false⟩) :
    Steered mode cust conf (conf.relate m c (mode = .whisper)) where
  has _ _ := Conference.has_relate
  nextId := Conference.nextId_relate ..
  agents x y hx := by
    apply Conference.nospeak_relate_of_ne
    rintro rfl
    exact nomatch hown _ hx
  ready hr := by
    constructor
    · intro hl
      have hn := hr.listen hl
      rw [Conference.heard_iff] at hn ⊢
      rintro ⟨x, y, hx, hy, hs⟩
      rw [Conference.member_relate] at hx
      have hne : x ≠ m := by
        rintro rfl
        exact hm hl hx
      rw [Conference.nospeak_relate_of_ne hne] at hs
      exact hn ⟨x, y, hx, Conference.has_relate.mp hy, hs⟩
    · intro hw x y hx hy
      rw [decide_eq_true hw]
      exact Conference.nospeak_relate_true
        (hr.whisper hw x y (Conference.has_relate.mp hx) (Conference.has_relate.mp hy))
  ruled leg hr := by
    constructor
    · intro hl x hleg
      rw [Conference.member_relate]
      exact hr.listen hl x hleg
    · intro hw x y hleg hcust hx hy
      rw [decide_eq_true hw]
      exact Conference.nospeak_relate_true
        (hr.whisper hw x y hleg hcust (Conference.has_relate.mp hx) (Conference.has_relate.mp hy))

end Steered

section rules

variable {P Q : Prop} {mode : Mode} {agentPrivate : Bool} {conf : Conference}

theorem Steered.hush {cust : Option Nat} {conf' : Conference} (h : Steered mode cust conf conf')
    (hP : P → mode ≠ .barge ∧ Ready mode conf) (hQ : Q → conf.Quiet .agent) : Hush P Q conf' :=
  ⟨fun hp => (h.ready (hP hp).2).not_heard (hP hp).1, fun hq => (h.quiet (hQ hq)).not_heard⟩

theorem muteIn_always (cust : Option Nat) (hP : P → mode ≠ .barge ∧ Ready mode conf) (hQ : Q → conf.Quiet .agent)
    (m : Nat) : (muteIn mode m).Always Cmd.exec (Hush P Q) conf fun _ conf' =>
      Steered mode cust conf conf' ∧ (mode = .listen → conf'.member m ≠ some ⟨.supervisor, false⟩) := by
  unfold muteIn
  by_cases hl : mode = .listen
  · have hs : Steered mode cust conf (conf.setMuted m true) := .setMuted fun _ => rfl
    rw [if_pos hl]
    refine ⟨hs.hush hP hQ, hs, fun _ hm => ?_⟩
    rw [show (Cmd.exec (Cmd.mute m) conf).1 = conf.setMuted m true from rfl, Conference.member_setMuted,
      if_pos rfl] at hm
    cases hy : conf.member m <;> simp [hy] at hm
  · have hs : Steered mode cust conf (conf.setMuted m false) := .setMuted fun h => absurd h hl
    rw [if_neg hl]
    exact ⟨hs.hush hP hQ, hs, fun h => absurd h hl⟩

/-- Muted or not, then the relation to the customer. -/
theorem supervisorRule_always {cust : Option Nat} {leg : Leg} (hP : P → mode ≠ .barge ∧ Ready mode conf)
    (hQ : Q → conf.Quiet .agent)
    (hown : ∀ m, leg.memberId = some m → ∀ kind, conf.Has m kind → kind = .supervisor) :
    (supervisorRule mode cust leg).Always Cmd.exec (Hush P Q) conf fun _ conf' =>
      Steered mode cust conf conf' ∧ Ruled mode cust conf' leg := by
  unfold supervisorRule
  cases hleg : leg.memberId with
  | none =>
    refine ⟨.refl conf, ?_, ?_⟩
    · intro _ m hm
      rw [hleg] at hm
      cases hm
    · intro _ m c hm
      rw [hleg] at hm
      cases hm
  | some m =>
    apply (muteIn_always cust hP hQ m).bind
    rintro - conf₁ ⟨hs, hmuted⟩
    have hown₁ : ∀ kind, conf₁.Has m kind → kind = .supervisor := fun kind hk =>
      hown m hleg kind ((hs.has m kind).mp hk)
    have hlisten : ∀ conf' : Conference, conf'.member = conf₁.member → mode = .listen → ∀ x,
        leg.memberId = some x → conf'.member x ≠ some ⟨.supervisor, false⟩ := by
      intro conf' heq hl x hx
      rw [hleg] at hx
      cases hx
      rw [heq]
      exact hmuted hl
    cases cust with
    | none => exact ⟨hs, hlisten conf₁ rfl, fun _ _ _ _ hc => nomatch hc⟩
    | some c =>
      have hs' : Steered mode (some c) conf₁ (conf₁.relate m c (mode = .whisper)) := .relate hown₁ hmuted
      refine ⟨(hs.trans hs').hush hP hQ, hs.trans hs', hlisten _ (Conference.member_relate ..), ?_⟩
      intro hw x y hx hy hxs hyc
      rw [hleg] at hx
      cases hx
      cases hy
      exact (Conference.nospeak_relate_self (Conference.has_relate.mp hxs) (Conference.has_relate.mp hyc)).trans
        (decide_eq_true hw)

/-! ### Agents -/

/-- The agent-private rule was applied to the agent's leg. -/
def Private (agentPrivate : Bool) (cust : Option Nat) (conf : Conference) (leg : Leg) : Prop :=
  agentPrivate = true → ∀ m c, leg.memberId = some m → cust = some c → conf.Has m .agent → conf.Has c .customer →
    conf.nospeak m c = true

/-- What commands of the rule for agents leave as it is. -/
structure Related (agentPrivate : Bool) (conf conf' : Conference) : Prop where
  member : conf'.member = conf.member
  nextId : conf'.nextId = conf.nextId
  supervisors : ∀ m c, conf.Has m .supervisor → conf'.nospeak m c = conf.nospeak m c
  agents : agentPrivate = true → ∀ m c, conf.nospeak m c = true → conf'.nospeak m c = true

namespace Related

variable {conf' conf'' : Conference}

theorem refl (conf : Conference) : Related agentPrivate conf conf :=
  ⟨rfl, rfl, fun _ _ _ => rfl, fun _ _ _ => id⟩

theorem has (h : Related agentPrivate conf conf') (m : Nat) (kind : Kind) : conf'.Has m kind ↔ conf.Has m kind := by
  unfold Conference.Has
  rw [h.member]

theorem trans (h : Related agentPrivate conf conf') (h' : Related agentPrivate conf' conf'') :
    Related agentPrivate conf conf'' where
  member := h'.member.trans h.member
  nextId := h'.nextId.trans h.nextId
  supervisors m c hm := (h'.supervisors m c ((h.has m _).mpr hm)).trans (h.supervisors m c hm)
  agents ha m c hn := h'.agents ha m c (h.agents ha m c hn)

theorem relate {m : Nat} (hown : ∀ kind, conf.Has m kind → kind = .agent) (c : Nat) :
    Related agentPrivate conf (conf.relate m c agentPrivate) where
  member := Conference.member_relate ..
  nextId := Conference.nextId_relate ..
  supervisors x y hx := by
    apply Conference.nospeak_relate_of_ne
    rintro rfl
    exact nomatch hown _ hx
  agents ha x y hn := by
    rw [ha]
    exact Conference.nospeak_relate_true hn

theorem priv (h : Related agentPrivate conf conf') {cust : Option Nat} {leg : Leg}
    (hl : Private agentPrivate cust conf leg) : Private agentPrivate cust conf' leg := by
  intro ha m c hm hc hx hy
  exact h.agents ha m c (hl ha m c hm hc ((h.has m _).mp hx) ((h.has c _).mp hy))

theorem muted (h : Related agentPrivate conf conf') (hm : conf.Muted) : conf'.Muted := by
  intro m
  rw [h.member]
  exact hm m

theorem quiet_supervisor (h : Related agentPrivate conf conf') (hq : conf.Quiet .supervisor) :
    conf'.Quiet .supervisor := by
  intro m c hm hc
  have hm' := (h.has m _).mp hm
  rw [h.supervisors m c hm']
  exact hq m c hm' ((h.has c _).mp hc)

theorem quiet_agent (h : Related agentPrivate conf conf') (ha : agentPrivate = true) (hq : conf.Quiet .agent) :
    conf'.Quiet .agent :=
  fun m c hm hc => h.agents ha m c (hq m c ((h.has m _).mp hm) ((h.has c _).mp hc))

theorem hush (h : Related agentPrivate conf conf')
    (hP : P → conf.Muted ∨ conf.Quiet .supervisor) (hQ : Q → agentPrivate = true ∧ conf.Quiet .agent) :
    Hush P Q conf' := by
  constructor
  · intro hp
    rcases hP hp with hm | hq
    · exact (h.muted hm).not_heard
    · exact (h.quiet_supervisor hq).not_heard
  · intro hq
    exact (h.quiet_agent (hQ hq).1 (hQ hq).2).not_heard

end Related

theorem agentRule_always {cust : Option Nat} {leg : Leg} (hP : P → conf.Muted ∨ conf.Quiet .supervisor)
    (hQ : Q → agentPrivate = true ∧ conf.Quiet .agent)
    (hown : ∀ m, leg.memberId = some m → ∀ kind, conf.Has m kind → kind = .agent) :
    (agentRule agentPrivate cust leg).Always Cmd.exec (Hush P Q) conf fun _ conf' =>
      Related agentPrivate conf conf' ∧ Private agentPrivate cust conf' leg := by
  unfold agentRule
  cases hleg : leg.memberId with
  | none =>
    refine ⟨.refl conf, fun _ m c hm => ?_⟩
    rw [hleg] at hm
    cases hm
  | some m =>
    cases cust with
    | none => exact ⟨.refl conf, fun _ _ _ _ hc => nomatch hc⟩
    | some c =>
      have hr : Related agentPrivate conf (conf.relate m c agentPrivate) := .relate (hown m hleg) c
      refine ⟨hr.hush hP hQ, hr, fun ha x y hx hy hxa hyc => ?_⟩
      rw [hleg] at hx
      cases hx
      cases hy
      exact (Conference.nospeak_relate_self (Conference.has_relate.mp hxa) (Conference.has_relate.mp hyc)).trans ha

/-! ### Both -/

/-- Who is in the conference is who the room has legs for. -/
structure Seated (room : Room) (conf : Conference) : Prop where
  agentKeys : room.agents.Keyed
  supervisorKeys : room.supervisors.Keyed
  customers : Lists conf .customer room.customer.toList
  agents : Lists conf .agent (room.agents.map Prod.snd)
  supervisors : Lists conf .supervisor (room.supervisors.map Prod.snd)
  pendingAgent : ∀ leg, room.pendingAgent = some leg → leg.memberId = none
  pendingSupervisors : ∀ leg ∈ room.pendingSupervisors.map Prod.snd, leg.memberId = none

theorem Seated.congr {room : Room} {conf' : Conference} (h : Seated room conf)
    (hh : ∀ m k, conf'.Has m k ↔ conf.Has m k) (hn : conf'.nextId = conf.nextId) : Seated room conf' where
  agentKeys := h.agentKeys
  supervisorKeys := h.supervisorKeys
  customers := h.customers.congr hh hn
  agents := h.agents.congr hh hn
  supervisors := h.supervisors.congr hh hn
  pendingAgent := h.pendingAgent
  pendingSupervisors := h.pendingSupervisors

/-- Members are gone, and legs with no member yet are new. -/
theorem Seated.fewer {room room' : Room} {conf' : Conference} (h : Seated room conf) (hf : Fewer conf conf')
    (hc : Replaces conf' room.customer.toList room'.customer.toList)
    (ha : room'.agents.Keyed ∧ Replaces conf' (room.agents.map Prod.snd) (room'.agents.map Prod.snd))
    (hs : room'.supervisors.Keyed ∧ Replaces conf' (room.supervisors.map Prod.snd) (room'.supervisors.map Prod.snd))
    (hpa : ∀ leg, room'.pendingAgent = some leg → leg.memberId = none)
    (hps : ∀ leg ∈ room'.pendingSupervisors.map Prod.snd, leg.memberId = none) : Seated room' conf' where
  agentKeys := ha.1
  supervisorKeys := hs.1
  customers := h.customers.fewer hf hc
  agents := h.agents.fewer hf ha.2
  supervisors := h.supervisors.fewer hf hs.2
  pendingAgent := hpa
  pendingSupervisors := hps

theorem Seated.customerId {room : Room} (h : Seated room conf) {c : Nat} (hc : conf.Has c .customer) :
    room.customerId = some c := by
  obtain ⟨leg, hleg, hl⟩ := h.customers.listed c hc
  rw [Option.mem_toList] at hleg
  rw [Room.customerId, hleg]
  exact hl

/-- The rules applied to all supervisors are what the mode asks for. -/
theorem muted_of_ruled {room : Room} (h : Seated room conf) (hl : room.mode = .listen)
    (hr : ∀ leg ∈ room.supervisors.map Prod.snd, Ruled room.mode room.customerId conf leg) : conf.Muted := by
  intro m hm
  obtain ⟨leg, hleg, hid⟩ := h.supervisors.listed m ⟨false, hm⟩
  exact (hr leg hleg).listen hl m hid hm

theorem quiet_of_ruled {room : Room} (h : Seated room conf) (hw : room.mode = .whisper)
    (hr : ∀ leg ∈ room.supervisors.map Prod.snd, Ruled room.mode room.customerId conf leg) :
    conf.Quiet .supervisor := by
  intro m c hm hc
  obtain ⟨leg, hleg, hid⟩ := h.supervisors.listed m hm
  exact (hr leg hleg).whisper hw m c hid (h.customerId hc) hm hc

theorem quiet_of_private {room : Room} (h : Seated room conf) (ha : room.agentPrivate = true)
    (hr : ∀ leg ∈ room.agents.map Prod.snd, Private room.agentPrivate room.customerId conf leg) :
    conf.Quiet .agent := by
  intro m c hm hc
  obtain ⟨leg, hleg, hid⟩ := h.agents.listed m hm
  exact hr leg hleg ha m c hid (h.customerId hc) hm hc

theorem Seated.muted_of_nil {room : Room} (h : Seated room conf) (hs : room.supervisors = []) : conf.Muted := by
  intro m hm
  have hl := h.supervisors
  rw [hs] at hl
  exact hl.none m ⟨false, hm⟩

theorem Seated.quiet_of_nil {room : Room} (h : Seated room conf) (hs : room.supervisors = []) :
    conf.Quiet .supervisor := by
  have hl := h.supervisors
  rw [hs] at hl
  exact Conference.quiet_of_not_has hl.none

/-- Applying the rules establishes what the mode asks for, and nobody is heard on the
way whom the mode had silent before. -/
theorem rules_always {room : Room} (h : Seated room conf)
    (hP : P → room.mode ≠ .barge ∧ Ready room.mode conf)
    (hQ : Q → room.agentPrivate = true ∧ conf.Quiet .agent) :
    (rules room).Always Cmd.exec (Hush P Q) conf fun _ conf' =>
      Seated room conf' ∧ Obeys room.mode room.agentPrivate conf' := by
  have hsup : (forLegs (supervisorRule room.mode room.customerId) room.supervisors).Always Cmd.exec (Hush P Q) conf
      fun _ conf' => Steered room.mode room.customerId conf conf' ∧
        ∀ leg ∈ room.supervisors.map Prod.snd, Ruled room.mode room.customerId conf' leg := by
    apply forLegs_always Steered.refl (fun _ _ _ => Steered.trans) (fun _ _ leg hs => hs.ruled leg)
    intro leg hleg conf' hs
    exact supervisorRule_always (fun hp => ⟨(hP hp).1, hs.ready (hP hp).2⟩) (fun hq => hs.quiet (hQ hq).2)
      fun m hm kind hk => (h.supervisors.own leg hleg m hm).2 kind ((hs.has m kind).mp hk)
  apply hsup.bind
  rintro - conf₁ ⟨hs, hruled⟩
  have h₁ : Seated room conf₁ := h.congr hs.has hs.nextId
  have hP₁ : P → conf₁.Muted ∨ conf₁.Quiet .supervisor := by
    intro hp
    cases hm : room.mode with
    | listen => exact .inl (muted_of_ruled h₁ hm hruled)
    | whisper => exact .inr (quiet_of_ruled h₁ hm hruled)
    | barge => exact absurd hm (hP hp).1
  have hQ₁ : Q → room.agentPrivate = true ∧ conf₁.Quiet .agent := fun hq => ⟨(hQ hq).1, hs.quiet (hQ hq).2⟩
  have hag : (forLegs (agentRule room.agentPrivate room.customerId) room.agents).Always Cmd.exec (Hush P Q) conf₁
      fun _ conf' => Related room.agentPrivate conf₁ conf' ∧
        ∀ leg ∈ room.agents.map Prod.snd, Private room.agentPrivate room.customerId conf' leg := by
    apply forLegs_always (D := Private room.agentPrivate room.customerId) Related.refl (fun _ _ _ => Related.trans) (fun _ _ leg hr => hr.priv)
    intro leg hleg conf' hr
    exact agentRule_always (fun hp => (hP₁ hp).imp hr.muted hr.quiet_supervisor)
      (fun hq => ⟨(hQ₁ hq).1, hr.quiet_agent (hQ₁ hq).1 (hQ₁ hq).2⟩)
      fun m hm kind hk => (h₁.agents.own leg hleg m hm).2 kind ((hr.has m kind).mp hk)
  apply hag.mono
  rintro - conf₂ ⟨hr, hpriv⟩
  have h₂ : Seated room conf₂ := h₁.congr hr.has hr.nextId
  refine ⟨h₂, ?_, ?_, fun ha => quiet_of_private h₂ ha hpriv⟩
  · intro hl
    exact hr.muted (muted_of_ruled h₁ hl hruled)
  · intro hw
    exact hr.quiet_supervisor (quiet_of_ruled h₁ hw hruled)

/-! ## Joining -/

theorem join_always {I : Conference → Prop} {kind : Kind} {leg : Leg} {muted : Bool}
    (hI : leg.memberId = none → I (conf.joined kind muted)) :
    (join kind leg muted).Always Cmd.exec I conf fun leg' conf' =>
      leg.memberId ≠ none ∧ leg' = leg ∧ conf' = conf ∨
      leg.memberId = none ∧ leg' = { leg with memberId := some conf.nextId } ∧ conf' = conf.joined kind muted := by
  unfold join
  cases hleg : leg.memberId with
  | some m => exact .inl ⟨nofun, rfl, rfl⟩
  | none => exact ⟨hI hleg, .inr ⟨rfl, rfl, rfl⟩⟩

theorem Obeys.joined_agent (h : Obeys mode agentPrivate conf)
    (hc : agentPrivate = true → ∀ c, ¬conf.Has c .customer) : Obeys mode agentPrivate (conf.joined .agent false) where
  listen hl := (h.listen hl).joined nofun
  whisper hw := (h.whisper hw).joined nofun (.inl nofun)
  agents ha := Conference.quiet_of_no_customer fun c hcust => hc ha c (Conference.has_joined_of_ne (by decide) hcust).2

/-- A customer joins whom nobody has to be kept from. -/
theorem Obeys.joined_customer (h : Obeys mode agentPrivate conf)
    (hw : mode = .whisper → ∀ m, ¬conf.Has m .supervisor) (ha : agentPrivate = true → ∀ m, ¬conf.Has m .agent) :
    Obeys mode agentPrivate (conf.joined .customer false) where
  listen hl := (h.listen hl).joined nofun
  whisper hm := (h.whisper hm).joined nofun (.inr (hw hm))
  agents hp := (h.agents hp).joined nofun (.inr (ha hp))

theorem Obeys.joined_supervisor (h : Obeys mode agentPrivate conf)
    (hc : mode = .whisper → ∀ c, ¬conf.Has c .customer) : Obeys mode agentPrivate (conf.joined .supervisor true) where
  listen hl := (h.listen hl).joined fun _ => rfl
  whisper hw := Conference.quiet_of_no_customer fun c hcust => hc hw c (Conference.has_joined_of_ne (by decide) hcust).2
  agents ha := (h.agents ha).joined nofun (.inl nofun)

/-- Agents join one after the other; `done` are those before. -/
theorem joinAgents_always {custs sups : List Leg} (done : List Leg) {legs : Legs} (hcusts : Lists conf .customer custs)
    (hsups : Lists conf .supervisor sups) (hagents : Lists conf .agent (done ++ legs.map Prod.snd))
    (ho : Obeys mode agentPrivate conf)
    (hsafe : agentPrivate = true → (∀ c, ¬conf.Has c .customer) ∨ ∀ l ∈ legs, l.2.memberId ≠ none) :
    (joinAgents legs).Always Cmd.exec (Hush (mode ≠ .barge) (agentPrivate = true)) conf fun legs' conf' =>
      legs'.map Prod.fst = legs.map Prod.fst ∧ Lists conf' .customer custs ∧ Lists conf' .supervisor sups ∧
        Lists conf' .agent (done ++ legs'.map Prod.snd) ∧ Obeys mode agentPrivate conf' := by
  induction legs generalizing conf done with
  | nil => exact ⟨rfl, hcusts, hsups, hagents, ho⟩
  | cons l legs ih =>
    obtain ⟨id, leg⟩ := l
    have hno : leg.memberId = none → agentPrivate = true → ∀ c, ¬conf.Has c .customer := by
      intro hleg ha
      rcases hsafe ha with hc | hall
      · exact hc
      · exact absurd hleg (hall (id, leg) List.mem_cons_self)
    apply (join_always fun hleg => (ho.joined_agent (hno hleg)).hush (fun h => h) fun h => h).bind
    rintro leg' conf₁ (⟨-, rfl, rfl⟩ | ⟨hleg, rfl, rfl⟩)
    · rw [List.map_cons, List.append_cons] at hagents
      apply (ih _ hcusts hsups hagents ho fun ha => (hsafe ha).imp_right fun hall l hl =>
        hall l (List.mem_cons_of_mem _ hl)).bind
      rintro legs' conf₂ ⟨hkeys, hcusts₂, hsups₂, hagents₂, ho₂⟩
      refine ⟨by rw [List.map_cons, hkeys, List.map_cons], hcusts₂, hsups₂, ?_, ho₂⟩
      rwa [List.map_cons, List.append_cons]
    · have hagents₁ : Lists (conf.joined .agent false) .agent
          (done ++ [{ leg with memberId := some conf.nextId }] ++ legs.map Prod.snd) := by
        apply hagents.joined_self
        · intro l hl
          simp only [List.mem_append, List.mem_singleton] at hl
          rcases hl with (hl | rfl) | hl
          · exact .inl (List.mem_append_left _ hl)
          · exact .inr (.inl rfl)
          · exact .inl (List.mem_append_right _ (List.mem_cons_of_mem _ hl))
        · intro l hl
          rcases List.mem_append.mp hl with hl | hl
          · exact .inl (List.mem_append_left _ (List.mem_append_left _ hl))
          · rcases List.mem_cons.mp hl with rfl | hl
            · exact .inr hleg
            · exact .inl (List.mem_append_right _ hl)
        · exact ⟨_, List.mem_append_left _ (List.mem_append_right _ (List.mem_singleton.mpr rfl)), rfl⟩
      have hcusts₁ : Lists (conf.joined .agent false) .customer custs := hcusts.joined (by decide)
      have hsups₁ : Lists (conf.joined .agent false) .supervisor sups := hsups.joined (by decide)
      have ho₁ := ho.joined_agent (hno hleg)
      apply (ih _ hcusts₁ hsups₁ hagents₁ ho₁ fun ha =>
        .inl fun c hc => hno hleg ha c (Conference.has_joined_of_ne (by decide) hc).2).bind
      rintro legs' conf₂ ⟨hkeys, hcusts₂, hsups₂, hagents₂, ho₂⟩
      refine ⟨by rw [List.map_cons, hkeys, List.map_cons], hcusts₂, hsups₂, ?_, ho₂⟩
      rwa [List.map_cons, List.append_cons]

end rules

end Callio.Rooms
