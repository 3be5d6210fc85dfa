import Callio.Media.Sounds

/-! Whether the hold and tone flags say what plays to the customer. They do, but for two ways out of
it: the customer's leg is replaced while a flag is on, and the hold ends while the tone is on, which
silences both. -/

namespace Callio.RoomMedia

open Concurrency Fallible
open Rooms (Kind Mode)

/-! ## What the law says -/

/-- The flags say what plays, and nothing plays over a conversation. -/
structure Truthful (room : Room) (server : Server) : Prop where
  hold : room.holdOn = true ↔ ∃ sound ∈ heard room server, sound.isHold = true
  tone : room.toneOn = true ↔ Sound.tone ∈ heard room server
  conversation : room.bridged = true → Joined room → heard room server = []

/-- What the operation leaves in the map is truthful. -/
def TruthfulAfter (s : Station) (op : Operation) (faults : List Bool) : Prop :=
  ∀ room, (s.perform op faults).1.room = some room → Truthful room (s.perform op faults).1.server

/-- No flag stays on for a sound the operation silences. -/
def LeavesNoFlag (s : Station) : Operation → Prop
  | .answerCustomer _ | .offerCustomer _ => s.roomFor.holdOn = false ∧ s.roomFor.toneOn = false
  | .stopHold => ¬ (s.roomFor.holdOn = true ∧ s.roomFor.toneOn = true)
  | _ => True

/-! ## One operation -/

/-- What an operation comes to that leaves the flags truthful exactly if `P`. -/
structure Outcome (P : Prop) (w w' : World) : Prop where
  tidy : Tidy w'
  customer : w'.room.customer = none → w.room.customer = none
  next : w.server.nextEndpoint ≤ w'.server.nextEndpoint
  truthful : (voice w').Truthful ↔ P
  silent : Joined w'.room → w'.room.holdOn = false ∧ w'.room.toneOn = false

theorem Sounds.outcome {P : Prop} {w w' : World} {v : Voice} (h : Sounds w v w')
    (hP : v.Truthful ↔ P) (hjoined : Joined w'.room → v.holdOn = false ∧ v.toneOn = false) :
    Outcome P w w' := by
  refine ⟨h.tidy, h.customer, h.next, ?_, fun hj => ?_⟩
  · rw [h.voice]
    exact hP
  · have hflags := hjoined hj
    rw [← h.voice] at hflags
    exact hflags

/-- What holds of a world at rest. -/
structure InTune (w : World) : Prop where
  tidy : Tidy w
  truthful : (voice w).Truthful
  silent : Joined w.room → w.room.holdOn = false ∧ w.room.toneOn = false

section Operations

variable {w : World}

theorem InTune.outcome_calm (h : InTune w) {w' : World} (hs : Sounds w (voice w) w')
    (hj : Joined w'.room → Joined w.room) : Outcome True w w' :=
  hs.outcome (iff_of_true h.truthful trivial) fun hj' => h.silent (hj hj')

/-- An operation the customer hears nothing of. -/
theorem InTune.ends_calm {op : Operation} {Q : Bool → World → Prop} (h : InTune w)
    (hop : Softly op.code w Q) :
    op.code.Ends ⟨w, []⟩ (fun _ w' => Outcome True w w'.state) fun w' => Outcome True w w'.state :=
  (hop.sounds h.tidy).mono (fun _ _ hs => h.outcome_calm hs.2.1 hs.2.2.1)
    fun _ hs => h.outcome_calm hs.2.1 hs.2.2

theorem replaced_truthful (v : Voice) :
    v.replaced.Truthful ↔ v.holdOn = false ∧ v.toneOn = false := by
  constructor
  · exact fun h => h.absent rfl
  · exact fun h => Voice.truthful_of_silent h.1 h.2 rfl

theorem InTune.outcome_replaced (h : InTune w) {w' : World} (hs : Sounds w (voice w).replaced w')
    (hj : Joined w'.room → Joined w.room) :
    Outcome (w.room.holdOn = false ∧ w.room.toneOn = false) w w' :=
  hs.outcome (replaced_truthful _) fun hj' => h.silent (hj hj')

theorem InTune.outcome_dropAgent (h : InTune w) {w' : World}
    (hs : (Sounds w (voice w) w' ∧ (Joined w'.room → Joined w.room)) ∨
      (Sounds w ((voice w).tone true) w' ∧ ¬ Joined w'.room)) : Outcome True w w' := by
  rcases hs with ⟨hs, hj⟩ | ⟨hs, hj⟩
  · exact h.outcome_calm hs hj
  · exact hs.outcome (iff_of_true h.truthful.tone_on trivial) fun hj' => absurd hj' hj

theorem InTune.refl (h : InTune w) : Outcome True w w := h.outcome_calm (sounds_refl h.tidy) id

theorem InTune.outcome_bridge (h : InTune w) {w' : World}
    (hs : w' = w ∨ Sounds w ⟨true, false, false, []⟩ w') : Outcome True w w' := by
  rcases hs with rfl | hs
  · exact h.refl
  · exact hs.outcome (iff_of_true (Voice.truthful_of_silent rfl rfl rfl) trivial) fun _ => ⟨rfl, rfl⟩

theorem InTune.outcome_startHold (h : InTune w) {audio : Option String} {w' : World}
    (hs : w' = w ∨ (Sounds w ((voice w).entered.hold true audio) w' ∧ ¬ Joined w'.room)) :
    Outcome True w w' := by
  rcases hs with rfl | ⟨hs, hj⟩
  · exact h.refl
  · exact hs.outcome (iff_of_true (h.truthful.entered.hold_on audio) trivial) fun hj' => absurd hj' hj

/-- The hold's end, heard or not. -/
theorem InTune.outcome_stopHold (h : InTune w) {w' : World}
    (hs : Sounds w ((voice w).hold false none) w') (hagents : w'.room.agents = w.room.agents) :
    Outcome (¬ (w.room.holdOn = true ∧ w.room.toneOn = true)) w w' := by
  apply hs.outcome
  · cases hpresent : (voice w).present with
    | true => exact h.truthful.hold_off hpresent none
    | false =>
      have hsame : (voice w).hold false none = voice w := if_pos (.inl hpresent)
      have hsounds : (voice w).sounds = [] := by
        have hid : w.room.customerId = none := by simpa [voice] using hpresent
        simp [voice, heard, hid]
      rw [hsame]
      have hoff : w.room.holdOn = false ∧ w.room.toneOn = false := h.truthful.absent hsounds
      exact iff_of_true h.truthful fun hboth => Bool.false_ne_true (hoff.1.symm.trans hboth.1)
  · intro hj
    have hflags := h.silent (by unfold Joined at hj ⊢; rwa [hagents] at hj)
    have hsame : (voice w).hold false none = voice w := if_pos (.inr hflags.1)
    rw [hsame]
    exact hflags

/-- What an ordinary operation comes to. -/
theorem InTune.ends_ordinary {s : Station} (h : InTune s.world) {op : Operation} (hop : op.Ordinary) :
    op.code.Ends ⟨s.world, []⟩ (fun _ w' => Outcome (LeavesNoFlag s op) s.world w'.state)
      fun w' => Outcome (LeavesNoFlag s op) s.world w'.state := by
  have hquiet {m : Code Unit} (hm : Softly m s.world fun _ _ => True) :
      Ends (do m; return false) ⟨s.world, []⟩ (fun _ w' => Outcome True s.world w'.state)
        fun w' => Outcome True s.world w'.state :=
    (hm.sounds h.tidy).bind_return (fun _ _ hs => h.outcome_calm hs.2.1 hs.2.2.1)
      fun _ hs => h.outcome_calm hs.2.1 hs.2.2
  cases op with
  | answerCustomer transport =>
    exact (ends_answerCustomer transport h.tidy).bind_return
      (fun _ _ hs => h.outcome_replaced hs.1 hs.2) fun _ hs => h.outcome_replaced hs.1 hs.2
  | offerCustomer transport =>
    exact (ends_offerCustomer transport h.tidy).bind_return
      (fun _ _ hs => h.outcome_replaced hs.1 hs.2) fun _ hs => hs.elim
  | customerAnswered => exact hquiet softly_customerAnswered
  | offerAgent => exact hquiet softly_offerAgent
  | agentAccepted agentId => exact hquiet (softly_agentAccepted agentId)
  | answerAgent agentId => exact hquiet (softly_answerAgent agentId)
  | dropAgent agentId =>
    exact (ends_dropAgent_tone agentId h.tidy).bind_return (fun _ _ hs => h.outcome_dropAgent hs)
      fun _ hs => h.outcome_dropAgent (.inl hs)
  | bridge recorded =>
    exact (ends_bridge recorded h.tidy h.truthful).mono (fun _ _ hs => h.outcome_bridge hs)
      fun _ hs => h.outcome_bridge (.inr hs)
  | addSupervisor supervisorId => exact hquiet (softly_addSupervisor supervisorId)
  | offerSupervisor supervisorId => exact hquiet (softly_offerSupervisor supervisorId)
  | supervisorAnswered supervisorId => exact hquiet (softly_supervisorAnswered supervisorId)
  | setSupervisorMode mode => exact h.ends_calm (softly_setSupervisorMode mode)
  | setAgentPrivate active => exact h.ends_calm (softly_setAgentPrivate active)
  | removeSupervisor supervisorId => exact h.ends_calm (softly_removeSupervisor supervisorId)
  | startHold audio =>
    exact (ends_startHold audio h.tidy).bind_return (fun _ _ hs => h.outcome_startHold hs)
      fun _ hs => hs.elim
  | stopHold =>
    exact (ends_hold h.tidy false none).bind_return
      (fun _ _ hs => h.outcome_stopHold hs.2.1 hs.2.2) fun _ hs => hs.elim
  | close => exact hop.elim
  | adopt => exact hop.elim

end Operations

/-! ## A run -/

/-- What is saved of a room, seen from the room there is. -/
structure Saved (s : Station) (snap : Snapshot) : Prop where
  pendingAgent : ∀ leg, snap.pendingAgent = some leg →
    leg.ep < s.server.nextEndpoint ∧ leg.memberId = none
  agents : ∀ leg ∈ snap.agents, leg.ep < s.server.nextEndpoint
  supervisors : ∀ leg ∈ snap.supervisors.values, leg.ep < s.server.nextEndpoint
  customer : s.roomFor.customer = none →
    snap.customer = none ∧ snap.holdOn = false ∧ snap.toneOn = false

structure Station.InTune (s : Station) : Prop where
  world : RoomMedia.InTune s.world
  saved : ∀ snap, s.saved = some snap → Saved s snap

theorem inTune_noRoom {worker : Nat} {server : Server} {saved : Option Snapshot}
    (h : server.Fresh) : InTune ⟨worker, { name := worker }, .this, server, saved⟩ where
  tidy := ⟨h, fun _ hc => (nomatch hc), fun _ _ hc => (nomatch hc), fun _ hl => (nomatch hl),
    fun _ hl => (nomatch hl)⟩
  truthful := Voice.truthful_of_silent rfl rfl rfl
  silent := fun _ => ⟨rfl, rfl⟩

theorem fresh_inTune (worker : Nat) : ({ worker } : Station).InTune :=
  ⟨inTune_noRoom fun _ _ => ⟨rfl, rfl⟩, fun _ h => (nomatch h)⟩

/-- What an operation leaves: no room, or the outcome in the room it ran on. -/
def Leaves (s : Station) (op : Operation) (w' : World) : Prop :=
  (w'.held = .nothing ∧ w'.server.Fresh ∧ w'.saved = none ∧ LeavesNoFlag s op) ∨
    (Outcome (LeavesNoFlag s op) s.world w' ∧ around w' = around s.world)

/-- A room without a customer may be filled from what is saved of it. -/
theorem Station.InTune.ends_adopt {s : Station} (h : s.InTune) :
    adopt.Ends ⟨s.world, []⟩ (fun _ w' => Leaves s .adopt w'.state)
      fun w' => Leaves s .adopt w'.state := by
  by_cases hroom : Occupied s.world.room
  · exact (ends_adopt_occupied hroom).mpr (.inr ⟨h.world.refl, rfl⟩)
  · obtain ⟨hcustomer, -, -⟩ := not_occupied.mp hroom
    cases hsaved : s.saved with
    | none => exact (ends_adopt_unsaved hroom hsaved).mpr (.inl ⟨rfl, h.world.tidy.fresh, hsaved, trivial⟩)
    | some snap =>
      rw [ends_adopt_saved hroom hsaved]
      obtain ⟨hpending, hagents, hsupervisors, hnone⟩ := h.saved snap hsaved
      obtain ⟨hnoCustomer, hhold, htone⟩ := hnone hcustomer
      have hsilent : s.world.room.holdOn = false ∧ s.world.room.toneOn = false := by
        apply h.world.truthful.absent
        simp [voice, heard, Room.customerId, hcustomer]
      let w₁ : World := { s.world with room := tookOver s.world.room snap }
      have htook : Quiet s.world w₁ := quiet_room rfl (hhold.trans hsilent.1.symm)
        (htone.trans hsilent.2.symm) (fun _ => .inl) fun _ => .inl
      have hapart (leg : Leg) (hbelow : leg.ep < s.server.nextEndpoint) : Apart w₁ leg :=
        ⟨hbelow, fun cust hc => by cases hcustomer.symm.trans hc⟩
      have hends := ends_adoptLegs_quiet (htook.tidy h.world.tidy) hnoCustomer
        (fun leg hleg => ⟨hapart leg (hpending leg hleg).1, (hpending leg hleg).2⟩)
        (fun leg hleg => hapart leg (hagents leg hleg))
        fun leg hleg => hapart leg (hsupervisors leg hleg)
      have hleaves {w' : World} (hquiet : Quiet w₁ w') (haround : around w' = around w₁) :
          Leaves s .adopt w' := by
        refine .inr ⟨((htook.trans hquiet).sounds h.world.tidy).outcome
          (iff_of_true h.world.truthful trivial) fun _ => hsilent, haround⟩
      exact (hends.and (keeps_around_adoptLegs snap _)).mono (fun _ _ h => hleaves h.1 h.2)
        fun _ h => hleaves h.1 h.2

theorem Station.InTune.ends {s : Station} (h : s.InTune) (op : Operation) :
    op.code.Ends ⟨s.world, []⟩ (fun _ w' => Leaves s op w'.state) fun w' => Leaves s op w'.state := by
  by_cases hop : op.Ordinary
  · exact ((h.world.ends_ordinary hop).and (hop.keeps _)).mono (fun _ _ h => .inr h) fun _ h => .inr h
  · cases op with
    | close =>
      have hthis : s.world.held ≠ .nothing := fun h => (nomatch h)
      refine Ends.bind_return ((ends_close_held hthis).mpr ?_) (fun _ _ h => .inl h) fun _ h => .inl h
      have hgone := keeps_destroyLegs serverless_around s.world.room.legs
        ⟨{ s.world with held := .nothing }, []⟩
      have hfresh := ends_destroyLegs_fresh (w := { s.world with held := .nothing })
        s.world.room.legs h.world.tidy.fresh
      exact (hfresh.and hgone).mono (fun _ _ h => ⟨congrArg (·.2.1) h.2, h.1, rfl, trivial⟩) fun _ h => h.1.elim
    | adopt => exact h.ends_adopt
    | _ => exact absurd trivial hop

/-- The flags are truthful after it exactly if the operation leaves no flag on. -/
theorem Leaves.follows_iff {s : Station} {op : Operation} {w' : World} (h : Leaves s op w') :
    (∀ room, (Station.after w').room = some room → Truthful room w'.server) ↔
      LeavesNoFlag s op := by
  rcases h with ⟨hgone, -, -, hflag⟩ | ⟨houtcome, haround⟩
  · refine iff_of_true (fun room hroom => ?_) hflag
    simp [Station.after, hgone] at hroom
  · have hheld : w'.held = .this := congrArg (·.2.1) haround
    have hroom : (Station.after w').room = some w'.room := if_pos hheld
    rw [hroom, ← houtcome.truthful]
    constructor
    · intro htrue
      obtain ⟨hhold, htone, -⟩ := htrue _ rfl
      exact ⟨hhold, htone⟩
    · intro htruthful room hsome
      cases hsome
      refine ⟨htruthful.hold, htruthful.tone, fun _ hj => ?_⟩
      obtain ⟨hhold, htone⟩ := houtcome.silent hj
      exact htruthful.silent hhold htone

/-- Whether the map holds the room, and what is saved of it, the customer does not hear. -/
theorem InTune.elsewhere {w : World} (h : InTune w) (held : Held) (saved : Option Snapshot) :
    InTune { w with held, saved } where
  tidy := ⟨h.tidy.fresh, h.tidy.below, h.tidy.member,
    fun leg hleg => ⟨(h.tidy.apart leg hleg).below, (h.tidy.apart leg hleg).ne⟩, h.tidy.waiting⟩
  truthful := ⟨h.truthful.hold, h.truthful.tone⟩
  silent := h.silent

/-- What is saved of a room now. -/
theorem InTune.saved {w : World} (h : InTune w) {s : Station} (hroom : s.roomFor = w.room)
    (hserver : s.server = w.server) : Saved s (snapshotOf w.room) := by
  have hbelow {leg : Leg} (hleg : leg ∈ w.room.others) : leg.ep < s.server.nextEndpoint :=
    hserver ▸ (h.tidy.apart leg hleg).below
  refine ⟨fun leg hleg => ⟨hbelow (Room.mem_others.mpr (.inl hleg)), h.tidy.waiting leg hleg⟩,
    fun leg hleg => hbelow (Room.mem_others.mpr (.inr (.inl hleg))),
    fun leg hleg => hbelow (Room.mem_others.mpr (.inr (.inr (.inl hleg)))), fun hnone => ?_⟩
  have hcustomer : w.room.customer = none := hroom ▸ hnone
  have hsounds : (voice w).sounds = [] := by simp [voice, heard, Room.customerId, hcustomer]
  exact ⟨hcustomer, h.truthful.absent hsounds⟩

/-- What an operation leaves is in tune again, if it leaves no flag on. -/
theorem Leaves.inTune {s : Station} {op : Operation} {w' : World} (hs : s.InTune)
    (h : Leaves s op w') (hflag : LeavesNoFlag s op) : (Station.after w').InTune := by
  rcases h with ⟨hgone, hfresh, hsaved, -⟩ | ⟨houtcome, haround⟩
  · have hafter : Station.after w' = { worker := w'.worker, server := w'.server } := by
      simp [Station.after, hgone, hsaved]
    rw [hafter]
    exact ⟨inTune_noRoom hfresh, fun _ h => (nomatch h)⟩
  · have hheld : w'.held = .this := congrArg (·.2.1) haround
    have hsame : w'.saved = s.saved := congrArg (·.2.2) haround
    have hroom : (Station.after w').roomFor = w'.room := by simp [Station.roomFor, Station.after, hheld]
    have hworld : (Station.after w').world =
        { w' with held := .this, saved := (Station.after w').saved } := by
      unfold Station.world
      rw [hroom]
      rfl
    have hinTune : InTune w' := ⟨houtcome.tidy, houtcome.truthful.mpr hflag, houtcome.silent⟩
    refine ⟨hworld ▸ hinTune.elsewhere _ _, fun snap hsnap => ?_⟩
    by_cases hlegs : w'.room.hasLegs = true
    · have hnow : (Station.after w').saved = some (snapshotOf w'.room) := if_pos ⟨hheld, hlegs⟩
      cases hnow.symm.trans hsnap
      exact hinTune.saved hroom rfl
    · have hbefore : (Station.after w').saved = w'.saved := if_neg fun h => hlegs h.2
      obtain ⟨hpending, hagents, hsupervisors, hcustomer⟩ :=
        hs.saved snap (hsame.symm.trans (hbefore.symm.trans hsnap))
      have hnext : s.server.nextEndpoint ≤ (Station.after w').server.nextEndpoint := houtcome.next
      refine ⟨fun leg hleg => ⟨Nat.lt_of_lt_of_le (hpending leg hleg).1 hnext, (hpending leg hleg).2⟩,
        fun leg hleg => Nat.lt_of_lt_of_le (hagents leg hleg) hnext,
        fun leg hleg => Nat.lt_of_lt_of_le (hsupervisors leg hleg) hnext, fun hnone => ?_⟩
      exact hcustomer (houtcome.customer (hroom ▸ hnone))

/-- A room made for the operation has no flag on. -/
theorem leavesNoFlag_of_noRoom {s : Station} (h : s.room = none) (op : Operation) :
    LeavesNoFlag s op := by
  have hfresh : s.roomFor = { name := s.worker } := by simp [Station.roomFor, h]
  cases op <;> simp [LeavesNoFlag, hfresh]

theorem truthfulAfter_iff {s : Station} (h : s.InTune) (op : Operation) :
    TruthfulAfter s op [] ↔ LeavesNoFlag s op := by
  apply Station.perform_elim
    (P := fun r => (∀ room, r.1.room = some room → Truthful room r.1.server) ↔ LeavesNoFlag s op)
    _ (h.ends op)
  · exact fun _ _ hleaves => hleaves.follows_iff
  · exact fun _ hleaves => hleaves.follows_iff
  · intro answer hroom hop
    refine iff_of_true (fun room hsome => ?_) (leavesNoFlag_of_noRoom hroom op)
    cases hroom.symm.trans hsome

theorem Station.InTune.perform {s : Station} (h : s.InTune) {op : Operation}
    (hflag : LeavesNoFlag s op) : (s.perform op []).1.InTune :=
  Station.perform_elim (P := fun r => r.1.InTune) (fun _ _ _ => h) (h.ends op)
    (fun _ _ hleaves => hleaves.inTune h hflag) fun _ hleaves => hleaves.inTune h hflag

/-- An operation all of whose commands succeed. -/
def Event.Succeeds : Event → Prop
  | .operate _ faults => faults = []
  | _ => False

/-- In every run with every command succeeding, the flags are truthful after each operation as long
as none leaves a flag on. -/
theorem truthful_iff (worker : Nat) (ops : List Operation) :
    Each TruthfulAfter { worker } (ops.map fun op => .operate op []) ↔
      Each (fun s op _ => LeavesNoFlag s op) { worker } (ops.map fun op => .operate op []) := by
  apply each_iff (I := Station.InTune) (G := Event.Succeeds) (P := TruthfulAfter) _ _
    (fresh_inTune worker)
  · intro event hevent
    obtain ⟨op, -, rfl⟩ := List.mem_map.mp hevent
    rfl
  · intro s hs op faults hfaults
    cases hfaults
    exact truthfulAfter_iff hs op
  · intro s hs event hevent htrue
    cases event with
    | operate op faults =>
      cases hevent
      exact hs.perform ((truthfulAfter_iff hs op).mp (htrue op [] rfl))
    | _ => exact hevent.elim

/-- The customer is put on hold. -/
def holding : List Event :=
  [.operate (.answerCustomer .webrtc) [], .operate (.startHold (some "music")) []]

/-- The customer's leg is answered again: the flag says there is music, and there is none. -/
theorem not_truthful_heldCustomer : ¬ Each TruthfulAfter {}
    ([.answerCustomer .webrtc, .startHold (some "music"), .answerCustomer .webrtc].map
      fun op => .operate op []) := by
  intro h
  let s : Station := Station.run {} holding
  have htrue : TruthfulAfter s (.answerCustomer .webrtc) [] := each_last h
  have hroom : (s.perform (.answerCustomer .webrtc) []).1.room.map (fun room =>
      (room.holdOn, heard room (s.perform (.answerCustomer .webrtc) []).1.server)) =
      some (true, []) := by decide +kernel
  obtain ⟨room, hsome, heq⟩ := Option.map_eq_some_iff.mp hroom
  obtain ⟨hon, hsilent⟩ := Prod.mk.inj heq
  obtain ⟨sound, hmem, -⟩ := (htrue room hsome).hold.mp hon
  rw [hsilent] at hmem
  cases hmem

end Callio.RoomMedia
