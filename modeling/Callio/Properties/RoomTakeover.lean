import Callio.Media.Holdings

/-! A room outlives its worker. Whatever becomes of the media commands, a room with legs is
saved after every operation, and the worker that takes the call over makes the same room of
what was saved. -/

namespace Callio.RoomMedia

open Concurrency Fallible
open Rooms (Kind Mode)

/-! ## Rooms in order -/

/-- Everybody is in the room's maps once, and an agent's leg says whose it is. -/
structure Room.Orderly (room : Room) : Prop where
  agents : room.agents.ids.Nodup
  named : ∀ entry ∈ room.agents, entry.2.agentId = some entry.1
  supervisors : room.supervisors.ids.Nodup

/-- The room is in order, and what is saved of one names its agents. -/
structure Shaped (w : World) : Prop where
  room : w.room.Orderly
  saved : ∀ snap ∈ w.saved, ∀ leg ∈ snap.agents, leg.agentId.isSome = true

namespace Room.Orderly

variable {room room' : Room}

theorem new (name : Nat) : ({ name } : Room).Orderly :=
  ⟨List.nodup_nil, fun _ hentry => absurd hentry List.not_mem_nil, List.nodup_nil⟩

/-- Nobody came or went. -/
theorem same (h : room.Orderly) (hagents : room'.agents = room.agents) (hsupervisors : room'.supervisors = room.supervisors) :
    room'.Orderly :=
  ⟨hagents ▸ h.agents, hagents ▸ h.named, hsupervisors ▸ h.supervisors⟩

theorem setAgent (h : room.Orderly) {agentId : Nat} {leg : Leg} (hleg : leg.agentId = some agentId) :
    ({ room with agents := room.agents.set agentId leg } : Room).Orderly where
  agents := Legs.nodup_set h.agents agentId leg
  named entry hentry := by
    rcases Legs.mem_of_mem_set hentry with rfl | hold
    · exact hleg
    · exact h.named entry hold
  supervisors := h.supervisors

theorem deleteAgent (h : room.Orderly) (agentId : Nat) :
    ({ room with agents := room.agents.delete agentId } : Room).Orderly :=
  ⟨Legs.nodup_delete h.agents agentId, fun entry hentry => h.named entry (List.mem_of_mem_filter hentry), h.supervisors⟩

theorem setSupervisor (h : room.Orderly) (supervisorId : Nat) (leg : Leg) :
    ({ room with supervisors := room.supervisors.set supervisorId leg } : Room).Orderly :=
  ⟨h.agents, h.named, Legs.nodup_set h.supervisors supervisorId leg⟩

theorem deleteSupervisor (h : room.Orderly) (supervisorId : Nat) :
    ({ room with supervisors := room.supervisors.delete supervisorId } : Room).Orderly :=
  ⟨h.agents, h.named, Legs.nodup_delete h.supervisors supervisorId⟩

/-- What is saved of a room in order names its agents. -/
theorem named_snapshot (h : room.Orderly) {leg : Leg} (hleg : leg ∈ (snapshotOf room).agents) : leg.agentId.isSome = true := by
  obtain ⟨entry, hentry, rfl⟩ := List.mem_map.mp hleg
  rw [h.named entry hentry]
  rfl

end Room.Orderly

/-! ## One function after the other -/

section functions

variable {α : Type} {m : Code α}

/-- Commands to the servers leave the room in order. -/
theorem shaped_of_bare (h : Keeps bare m) : Preserves Shaped m := by
  have hshaped : ∀ w w' : World, Shaped w → bare w' = bare w → Shaped w' := by
    intro w w' hw hbare
    obtain ⟨-, hroom, -, hsaved⟩ := bare_fields hbare
    exact ⟨hroom ▸ hw.room, hsaved ▸ hw.saved⟩
  exact fun w hw => (h w).mono (fun _ w' h' => hshaped w.state w'.state hw h') fun w' h' => hshaped w.state w'.state hw h'

theorem shaped_modify {f : Room → Room} (h : ∀ room, room.Orderly → (f room).Orderly) : Preserves Shaped (modify f) :=
  preserves_change fun w hw => ⟨h w.room hw.room, hw.saved⟩

/-- Nobody comes or goes by it. -/
theorem shaped_modify_same {f : Room → Room} (hagents : ∀ room, (f room).agents = room.agents)
    (hsupervisors : ∀ room, (f room).supervisors = room.supervisors) : Preserves Shaped (modify f) :=
  shaped_modify fun room h => h.same (hagents room) (hsupervisors room)

theorem shaped_theRoom : Preserves Shaped theRoom := preserves_read

theorem shaped_api : Preserves Shaped api := shaped_of_bare (issues_api serverless_bare).keeps

theorem shaped_deleteRtp (rtpKey : RtpKey) : Preserves Shaped (deleteRtp rtpKey) :=
  shaped_of_bare (passes_deleteRtp serverless_bare rtpKey).keeps

theorem shaped_destroyLeg (leg : Option Leg) : Preserves Shaped (destroyLeg leg) :=
  shaped_of_bare (passes_destroyLeg serverless_bare leg).keeps

theorem shaped_join (leg : Leg) : Preserves Shaped (join leg) := shaped_of_bare (keeps_join serverless_bare leg)

theorem shaped_applyAnswer (leg : Leg) : Preserves Shaped (applyAnswer leg) :=
  shaped_of_bare (issues_applyAnswer serverless_bare leg).keeps

theorem shaped_rules : Preserves Shaped rules := shaped_of_bare (keeps_rules serverless_bare)

theorem shaped_key (kind : Kind) : Preserves Shaped (key kind) :=
  (shaped_modify_same (fun _ => by rfl) fun _ => by rfl).bind fun _ => shaped_theRoom.bind fun _ =>
    preserves_read.bind fun _ => preserves_pure _

theorem shaped_legFromOffer (kind : Kind) (transport : Transport) : Preserves Shaped (legFromOffer kind transport) := by
  refine (shaped_key kind).bind fun rtpKey => Preserves.onFailure ?_ (shaped_deleteRtp rtpKey)
  refine (shaped_of_bare (issues_send serverless_bare _).keeps).bind fun _ => ?_
  refine (shaped_of_bare (issues_make serverless_bare _).keeps).bind fun _ => ?_
  exact shaped_api.bind fun _ => preserves_pure _

theorem shaped_legOffer (kind : Kind) (transport : Transport) : Preserves Shaped (legOffer kind transport) := by
  refine (shaped_key kind).bind fun rtpKey => Preserves.onFailure ?_ (shaped_deleteRtp rtpKey)
  refine (shaped_of_bare (issues_make serverless_bare _).keeps).bind fun _ => ?_
  exact (shaped_of_bare (issues_send serverless_bare _).keeps).bind fun _ => preserves_pure _

theorem shaped_armCustomer (leg : Leg) (made : Bool) : Preserves Shaped (armCustomer leg made) :=
  (shaped_modify_same (fun _ => by rfl) fun _ => by rfl).bind fun _ => preserves_ite shaped_api.caught (preserves_pure ())

theorem shaped_watchCustomer : Preserves Shaped watchCustomer := by
  refine shaped_modify_same (fun room => ?_) fun room => ?_
  · split <;> rfl
  · split <;> rfl

theorem shaped_soundTo (cust : Nat) (on : Bool) (sound : Sound) : Preserves Shaped (soundTo cust on sound) :=
  preserves_ite (shaped_of_bare (issues_send serverless_bare _).keeps) (shaped_of_bare (issues_send serverless_bare _).keeps)

theorem shaped_tone (on : Bool) : Preserves Shaped (tone on) := by
  refine shaped_theRoom.bind fun room => ?_
  split
  · exact preserves_pure ()
  · exact preserves_ite (preserves_pure ())
      ((shaped_modify_same (fun _ => by rfl) fun _ => by rfl).bind fun _ => shaped_soundTo _ _ _)

theorem shaped_hold (on : Bool) (audio : Option String) : Preserves Shaped (hold on audio) := by
  refine shaped_theRoom.bind fun room => ?_
  split
  · exact preserves_pure ()
  · exact preserves_ite (preserves_pure ())
      ((shaped_modify_same (fun _ => by rfl) fun _ => by rfl).bind fun _ => shaped_soundTo _ _ _)

theorem shaped_breakCustomer : Preserves Shaped breakCustomer :=
  shaped_theRoom.bind fun _ => preserves_ite shaped_api.caught (preserves_pure ())

theorem shaped_joinCustomer : Preserves Shaped joinCustomer := by
  refine shaped_theRoom.bind fun room => ?_
  split
  · exact preserves_pure ()
  · exact (shaped_join _).bind fun _ => shaped_modify_same (fun _ => by rfl) fun _ => by rfl

theorem shaped_enterIfOut : Preserves Shaped enterIfOut :=
  shaped_theRoom.bind fun _ =>
    preserves_ite (shaped_breakCustomer.bind fun _ => shaped_joinCustomer) (preserves_pure ())

/-- A leg that joins is still its agent's. -/
theorem ends_join_agent (leg : Leg) {w : Faulty World} (hw : Shaped w.state) :
    (join leg).Ends w (fun leg' w' => leg'.agentId = leg.agentId ∧ Shaped w'.state) fun w' => Shaped w'.state := by
  have hagent : (join leg).Ends w (fun leg' _ => leg'.agentId = leg.agentId) fun _ => True := by
    unfold join
    split
    · exact (ends_pure _).mpr rfl
    · rw [ends_bind, make, ends_command]
      refine ⟨fun _ => trivial, fun _ => ?_⟩
      rw [ends_bind, ends_caught, api, send, ends_command]
      exact ⟨fun _ => rfl, fun _ => rfl⟩
  exact (hagent.and (shaped_join leg w hw)).mono (fun _ _ h => h) fun _ h => h.2

theorem shaped_joinAgents (ids : List Nat) : Preserves Shaped (joinAgents ids) := by
  induction ids with
  | nil => exact preserves_pure ()
  | cons agentId ids ih =>
    intro w hw
    rw [joinAgents, theRoom, ends_bind, ends_read]
    split
    · exact ih w hw
    · rename_i leg hget
      have howner : leg.agentId = some agentId := hw.room.named (agentId, leg) (Legs.mem_of_get hget)
      rw [ends_bind]
      refine (ends_join_agent leg hw).mono (fun joined w' h => ?_) fun _ h => h
      rw [ends_bind, modify, ends_change]
      exact ih _ ⟨h.2.room.setAgent (h.1.trans howner), h.2.saved⟩

theorem shaped_dropPreviousAgent (agentId : Nat) : Preserves Shaped (dropPreviousAgent agentId) := by
  refine shaped_theRoom.bind fun room => ?_
  split
  · exact preserves_pure ()
  · exact (shaped_modify fun _ h => h.deleteAgent agentId).bind fun _ => shaped_destroyLeg _

theorem shaped_dropPreviousSupervisor (supervisorId : Nat) : Preserves Shaped (dropPreviousSupervisor supervisorId) := by
  refine shaped_theRoom.bind fun room => ?_
  split
  · exact preserves_pure ()
  · exact (shaped_modify fun _ h => h.deleteSupervisor supervisorId).bind fun _ => shaped_destroyLeg _

theorem shaped_removeAgents (ids : List Nat) : Preserves Shaped (removeAgents ids) := by
  induction ids with
  | nil => exact preserves_pure ()
  | cons agentId ids ih => exact (shaped_dropPreviousAgent agentId).bind fun _ => ih

theorem shaped_removeSupervisors (ids : List Nat) : Preserves Shaped (removeSupervisors ids) := by
  induction ids with
  | nil => exact preserves_pure ()
  | cons supervisorId ids ih => exact (shaped_dropPreviousSupervisor supervisorId).bind fun _ => ih

/-! ### The operations -/

theorem shaped_customerAnswered : Preserves Shaped customerAnswered := by
  refine shaped_theRoom.bind fun room => ?_
  split
  · exact preserves_throw
  · exact (shaped_applyAnswer _).bind fun _ => (shaped_modify_same (fun _ => by rfl) fun _ => by rfl).bind fun _ =>
      shaped_watchCustomer

theorem shaped_offerAgent : Preserves Shaped offerAgent :=
  shaped_theRoom.bind fun _ => (shaped_destroyLeg _).bind fun _ => (shaped_modify_same (fun _ => by rfl) fun _ => by rfl).bind fun _ =>
    (shaped_legOffer _ _).bind fun _ => shaped_modify_same (fun _ => by rfl) fun _ => by rfl

theorem shaped_agentAccepted (agentId : Nat) : Preserves Shaped (agentAccepted agentId) := by
  refine shaped_theRoom.bind fun room => ?_
  split
  · exact preserves_throw
  · exact (shaped_modify_same (fun _ => by rfl) fun _ => by rfl).bind fun _ =>
      (shaped_of_bare (keeps_answeredAgentLeg serverless_bare _)).bind fun _ => shaped_theRoom.bind fun _ =>
        (shaped_destroyLeg _).bind fun _ => shaped_modify fun _ h => h.setAgent rfl

theorem shaped_answerAgent (agentId : Nat) : Preserves Shaped (answerAgent agentId) :=
  (shaped_dropPreviousAgent agentId).bind fun _ => (shaped_legFromOffer _ _).bind fun _ =>
    shaped_modify fun _ h => h.setAgent rfl

theorem shaped_dropAgent (agentId : Option Nat) : Preserves Shaped (dropAgent agentId) :=
  shaped_theRoom.bind fun _ => (shaped_removeAgents _).bind fun _ => shaped_theRoom.bind fun _ =>
    preserves_ite ((shaped_modify_same (fun _ => by rfl) fun _ => by rfl).bind fun _ => shaped_tone true) (preserves_pure ())

theorem shaped_bridge (recorded : Option Nat) : Preserves Shaped (bridge recorded) := by
  refine shaped_theRoom.bind fun room => preserves_ite (preserves_pure _) ?_
  exact shaped_enterIfOut.bind fun _ => (shaped_hold _ _).bind fun _ => (shaped_joinAgents _).bind fun _ =>
    (shaped_tone _).bind fun _ => shaped_rules.bind fun _ => (shaped_modify_same (fun _ => by rfl) fun _ => by rfl).bind fun _ =>
      preserves_pure _

theorem shaped_joinSupervisor (supervisorId : Nat) (leg : Leg) : Preserves Shaped (joinSupervisor supervisorId leg) := by
  refine (shaped_modify_same (fun room => ?_) fun room => ?_).bind fun _ => (shaped_join leg).bind fun leg' =>
    (shaped_modify fun _ h => h.setSupervisor supervisorId leg').bind fun _ => shaped_rules
  · split <;> rfl
  · split <;> rfl

theorem shaped_addSupervisor (supervisorId : Nat) : Preserves Shaped (addSupervisor supervisorId) :=
  (shaped_dropPreviousSupervisor supervisorId).bind fun _ => (shaped_legFromOffer _ _).bind fun _ =>
    shaped_joinSupervisor supervisorId _

theorem shaped_offerSupervisor (supervisorId : Nat) : Preserves Shaped (offerSupervisor supervisorId) :=
  shaped_theRoom.bind fun _ => (shaped_destroyLeg _).bind fun _ => (shaped_legOffer _ _).bind fun _ =>
    shaped_modify_same (fun _ => by rfl) fun _ => by rfl

theorem shaped_supervisorAnswered (supervisorId : Nat) : Preserves Shaped (supervisorAnswered supervisorId) := by
  refine shaped_theRoom.bind fun room => ?_
  split
  · exact preserves_throw
  · exact (shaped_modify_same (fun _ => by rfl) fun _ => by rfl).bind fun _ => (shaped_applyAnswer _).bind fun _ =>
      (shaped_dropPreviousSupervisor supervisorId).bind fun _ => shaped_joinSupervisor supervisorId _

theorem shaped_setSupervisorMode (mode : Mode) : Preserves Shaped (setSupervisorMode mode) :=
  shaped_theRoom.bind fun _ => (shaped_modify_same (fun _ => by rfl) fun _ => by rfl).bind fun _ =>
    shaped_rules.bind fun _ => preserves_pure _

theorem shaped_setAgentPrivate (active : Bool) : Preserves Shaped (setAgentPrivate active) :=
  shaped_theRoom.bind fun _ => (shaped_modify_same (fun _ => by rfl) fun _ => by rfl).bind fun _ =>
    shaped_rules.bind fun _ => shaped_theRoom.bind fun _ => preserves_pure _

theorem shaped_removeSupervisor (supervisorId : Option Nat) : Preserves Shaped (removeSupervisor supervisorId) := by
  refine shaped_theRoom.bind fun _ => (shaped_removeSupervisors _).bind fun _ => shaped_theRoom.bind fun _ =>
    (shaped_modify_same (fun room => ?_) fun room => ?_).bind fun _ =>
      shaped_rules.bind fun _ => shaped_theRoom.bind fun _ => preserves_pure _
  · split <;> rfl
  · split <;> rfl

theorem shaped_startHold (audio : Option String) : Preserves Shaped (startHold audio) :=
  shaped_theRoom.bind fun _ => preserves_ite (preserves_pure ())
    (shaped_breakCustomer.bind fun _ => shaped_joinCustomer.bind fun _ => shaped_hold true audio)

theorem shaped_close : Preserves Shaped close := by
  refine preserves_read.bind fun held => preserves_ite (preserves_pure ()) ?_
  refine (preserves_change fun w hw => ⟨hw.room, hw.saved⟩).bind fun _ => shaped_theRoom.bind fun room => ?_
  exact (shaped_of_bare (keeps_destroyLegs serverless_bare _)).bind fun _ =>
    preserves_change fun w hw => ⟨hw.room, fun snap hsnap => by cases hsnap⟩

/-! ### Taking over -/

theorem shaped_adoptLeg (leg : Leg) : Preserves Shaped (adoptLeg leg) :=
  shaped_of_bare (issues_adoptLeg serverless_bare leg).keeps

theorem ends_adoptLeg (leg : Leg) {w : Faulty World} (hw : Shaped w.state) :
    (adoptLeg leg).Ends w (fun leg' w' => leg' = leg ∧ Shaped w'.state) fun w' => Shaped w'.state := by
  have hleg : (adoptLeg leg).Ends w (fun leg' _ => leg' = leg) fun _ => True := by
    unfold adoptLeg
    rw [ends_bind, api, send, ends_command]
    exact ⟨fun _ => trivial, fun _ => rfl⟩
  exact (hleg.and (shaped_adoptLeg leg w hw)).mono (fun _ _ h => h) fun _ h => h.2

theorem shaped_adoptCustomer (saved : Option Leg) : Preserves Shaped (adoptCustomer saved) := by
  cases saved with
  | none => exact preserves_pure ()
  | some leg =>
    exact (shaped_adoptLeg leg).bind fun _ => (shaped_armCustomer _ _).bind fun _ =>
      shaped_modify_same (fun _ => by rfl) fun _ => by rfl

theorem shaped_adoptPendingAgent (saved : Option Leg) : Preserves Shaped (adoptPendingAgent saved) := by
  cases saved with
  | none =>
    unfold adoptPendingAgent
    exact shaped_modify_same (fun _ => by rfl) fun _ => by rfl
  | some leg => exact (shaped_adoptLeg leg).bind fun _ => shaped_modify_same (fun _ => by rfl) fun _ => by rfl

/-- Agents' legs are put where they say they belong. -/
theorem shaped_adoptAgents {saved : List Leg} (h : ∀ leg ∈ saved, leg.agentId.isSome = true) :
    Preserves Shaped (adoptAgents saved) := by
  induction saved with
  | nil => exact preserves_pure ()
  | cons leg rest ih =>
    intro w hw
    obtain ⟨agentId, hagent⟩ := Option.isSome_iff_exists.mp (h leg List.mem_cons_self)
    rw [adoptAgents, ends_bind]
    refine (ends_adoptLeg leg hw).mono (fun leg' w' h' => ?_) fun _ h' => h'
    obtain ⟨rfl, hw'⟩ := h'
    rw [ends_bind, modify, ends_change, hagent]
    exact ih (fun leg hleg => h leg (List.mem_cons_of_mem _ hleg)) _ ⟨hw'.room.setAgent hagent, hw'.saved⟩

theorem shaped_adoptSupervisors (saved : Legs) : Preserves Shaped (adoptSupervisors saved) := by
  induction saved with
  | nil => exact preserves_pure ()
  | cons entry rest ih =>
    exact (shaped_adoptLeg entry.2).bind fun _ => (shaped_modify fun _ h => h.setSupervisor _ _).bind fun _ => ih

theorem shaped_adopt : Preserves Shaped adopt := by
  intro w hw
  by_cases hoccupied : Occupied w.state.room
  · exact (ends_adopt_occupied hoccupied).mpr hw
  · cases hsaved : w.state.saved with
    | none => exact (ends_adopt_unsaved hoccupied hsaved).mpr ⟨hw.room, hw.saved⟩
    | some snap =>
      have hlegs : Preserves Shaped (adoptLegs snap) :=
        (shaped_adoptCustomer _).bind fun _ => (shaped_adoptPendingAgent _).bind fun _ =>
          (shaped_adoptAgents (hw.saved snap hsaved)).bind fun _ => (shaped_adoptSupervisors _).bind fun _ =>
            (shaped_modify_same (fun _ => by rfl) fun _ => by rfl).bind fun _ => shaped_watchCustomer
      refine (ends_adopt_saved hoccupied hsaved).mpr (hlegs _ ⟨hw.room.same rfl rfl, hw.saved⟩)

/-- Every operation leaves the room in order, whether it throws or not. -/
theorem shaped_code (op : Operation) : Preserves Shaped op.code := by
  have hanswered : ∀ {m : Code Unit}, Preserves Shaped m → Preserves Shaped (do m; return false : Code Bool) :=
    fun hm => hm.bind fun _ => preserves_pure false
  cases op with
  | answerCustomer transport =>
    exact hanswered (shaped_theRoom.bind fun _ => (shaped_destroyLeg _).bind fun _ => (shaped_legFromOffer _ _).bind fun _ =>
      (shaped_armCustomer _ _).bind fun _ => shaped_watchCustomer)
  | offerCustomer transport =>
    exact hanswered (shaped_theRoom.bind fun _ => (shaped_destroyLeg _).bind fun _ => (shaped_legOffer _ _).bind fun _ =>
      shaped_armCustomer _ _)
  | customerAnswered => exact hanswered shaped_customerAnswered
  | offerAgent => exact hanswered shaped_offerAgent
  | agentAccepted agentId => exact hanswered (shaped_agentAccepted agentId)
  | answerAgent agentId => exact hanswered (shaped_answerAgent agentId)
  | dropAgent agentId => exact hanswered (shaped_dropAgent agentId)
  | bridge recorded => exact shaped_bridge recorded
  | addSupervisor supervisorId => exact hanswered (shaped_addSupervisor supervisorId)
  | offerSupervisor supervisorId => exact hanswered (shaped_offerSupervisor supervisorId)
  | supervisorAnswered supervisorId => exact hanswered (shaped_supervisorAnswered supervisorId)
  | setSupervisorMode mode => exact shaped_setSupervisorMode mode
  | setAgentPrivate active => exact shaped_setAgentPrivate active
  | removeSupervisor supervisorId => exact shaped_removeSupervisor supervisorId
  | startHold audio => exact hanswered (shaped_startHold audio)
  | stopHold => exact hanswered (shaped_hold false none)
  | close => exact hanswered shaped_close
  | adopt => exact shaped_adopt

end functions

/-! ## What is saved -/

/-- A leg but for whether its digits are listened for, which no snapshot follows. -/
def Leg.unheard (leg : Leg) : Leg := { leg with listening := false }

/-- What holds of a station between two operations: the room that it has is the one that was saved
last, but for whether the customer's digits are listened for since. -/
structure Current (s : Station) : Prop where
  shaped : Shaped s.world
  saved : ∀ room, s.room = some room → room.hasLegs = true → ∃ snap, s.saved = some snap ∧
    snap.customer.map Leg.unheard = room.customer.map Leg.unheard ∧ snap = snapshotOf { room with customer := snap.customer }

section runs

variable {s : Station}

theorem Station.world_room (s : Station) {room : Room} (h : s.room = some room) : s.world.room = room := by
  unfold Station.world Station.roomFor
  rw [h]
  rfl

theorem current_boot : Current {} :=
  ⟨⟨.new 0, fun _ hsnap => by cases hsnap⟩, fun _ hroom => by cases hroom⟩

/-- A room still in the map is saved as it is. -/
theorem current_after {w : World} (h : Shaped w) : Current (Station.after w) := by
  by_cases hheld : w.held = .this
  · unfold Station.after
    simp only [hheld, if_true, true_and]
    refine ⟨⟨h.room, ?_⟩, fun room hroom hlegs => ?_⟩
    · show ∀ snap ∈ (if w.room.hasLegs = true then some (snapshotOf w.room) else w.saved), _
      split
      · intro snap hsnap leg hleg
        cases hsnap
        exact h.room.named_snapshot hleg
      · exact h.saved
    · cases hroom
      exact ⟨snapshotOf w.room, if_pos hlegs, rfl, rfl⟩
  · unfold Station.after
    simp only [hheld, if_false, false_and]
    exact ⟨⟨.new _, h.saved⟩, fun _ hroom => by cases hroom⟩

theorem Current.operate (h : Current s) (op : Operation) (faults : List Bool) : Current (s.step (.operate op faults)) := by
  show Current (s.perform op faults).1
  unfold Station.perform
  split
  · exact h
  · have hcode := shaped_code op ⟨s.world, faults⟩ h.shaped
    unfold Ends at hcode
    split at hcode
    · rename_i heq
      rw [heq]
      exact current_after hcode
    · rename_i heq
      rw [heq]
      exact current_after hcode

theorem Current.listenForDigits (h : Current s) (on : Bool) : Current (s.step (.listenForDigits on)) := by
  cases hroom : s.room with
  | none =>
    have hsame : s.step (.listenForDigits on) = s := by
      unfold Station.step Station.listenForDigits
      rw [hroom]
      exact congrArg (fun room => { s with room }) hroom.symm
    rwa [hsame]
  | some room =>
    let room' : Room := { room with customer := room.customer.map fun leg => { leg with listening := on } }
    have hstep : s.step (.listenForDigits on) = { s with room := some room' } := by
      unfold Station.step Station.listenForDigits
      rw [hroom]
      rfl
    have hworld := s.world_room hroom
    rw [hstep]
    refine ⟨⟨(hworld ▸ h.shaped.room).same rfl rfl, h.shaped.saved⟩, fun room'' hroom'' hlegs => ?_⟩
    cases hroom''
    have hlegs' : room.hasLegs = true := by simpa [Room.hasLegs, room'] using hlegs
    obtain ⟨snap, hsaved, hunheard, hsnap⟩ := h.saved room hroom hlegs'
    have hsame : room'.customer.map Leg.unheard = room.customer.map Leg.unheard := Option.map_map ..
    exact ⟨snap, hsaved, hunheard.trans hsame.symm, hsnap⟩

theorem Current.died (h : Current s) : Current (s.step .died) :=
  ⟨⟨.new _, h.shaped.saved⟩, fun _ hroom => by cases hroom⟩

theorem Current.step (h : Current s) (event : Event) : Current (s.step event) := by
  cases event with
  | operate op faults => exact h.operate op faults
  | listenForDigits on => exact h.listenForDigits on
  | died => exact h.died

theorem current_run (events : List Event) : Current (Station.run {} events) := by
  induction events using List.reverseRecOn with
  | nil => exact current_boot
  | append_singleton events event ih =>
    rw [Station.run, List.foldl_append]
    exact ih.step event

end runs

/-! ## Taking a room over -/

section adoption

variable {w : World}

theorem goes_adoptCustomer {saved : Option Leg} {R : Unit → World → Prop} (hnone : w.room.customer = none)
    (hR : R () { w with room := { w.room with customer := saved } }) : (adoptCustomer saved).Goes w R := by
  cases saved with
  | none =>
    rw [← hnone] at hR
    exact (goes_pure ()).mpr hR
  | some leg => exact ⟨rfl, hR⟩

theorem goes_adoptPendingAgent {saved : Option Leg} {R : Unit → World → Prop}
    (hR : R () { w with room := { w.room with pendingAgent := saved } }) : (adoptPendingAgent saved).Goes w R := by
  cases saved with
  | none => exact ⟨rfl, hR⟩
  | some leg => exact ⟨rfl, hR⟩

theorem Legs.set_of_notMem {legs : Legs} {id : Nat} (h : id ∉ legs.ids) (leg : Leg) :
    legs.set id leg = legs ++ [(id, leg)] := by
  unfold Legs.set
  rw [if_neg fun hin => h (Legs.get_isSome.mp hin)]

theorem goes_adoptAgents {legs : Legs} {R : Unit → World → Prop} (hnodup : (w.room.agents ++ legs : Legs).ids.Nodup)
    (hnamed : ∀ entry ∈ legs, entry.2.agentId = some entry.1)
    (hR : R () { w with room := { w.room with agents := w.room.agents ++ legs } }) :
    (adoptAgents legs.values).Goes w R := by
  induction legs generalizing w with
  | nil =>
    rw [List.append_nil] at hR
    exact (goes_pure ()).mpr hR
  | cons entry legs ih =>
    obtain ⟨agentId, leg⟩ := entry
    have hagent : leg.agentId = some agentId := hnamed _ List.mem_cons_self
    have hnot : agentId ∉ w.room.agents.ids := by
      intro hin
      have hsplit : ((w.room.agents ++ (agentId, leg) :: legs : Legs)).ids = w.room.agents.ids ++ agentId :: Legs.ids legs :=
        List.map_append
      rw [hsplit] at hnodup
      exact (List.nodup_append.mp hnodup).2.2 agentId hin agentId List.mem_cons_self rfl
    refine Goes.bind ⟨rfl, Goes.bind ((goes_change _).mpr ?_)⟩
    simp only [hagent, Option.getD_some, Legs.set_of_notMem hnot]
    refine ih ?_ (fun e he => hnamed e (List.mem_cons_of_mem _ he)) ?_
    · simpa using hnodup
    · simpa using hR

theorem goes_adoptSupervisors {legs : Legs} {R : Unit → World → Prop}
    (hnodup : (w.room.supervisors ++ legs : Legs).ids.Nodup)
    (hR : R () { w with room := { w.room with supervisors := w.room.supervisors ++ legs } }) :
    (adoptSupervisors legs).Goes w R := by
  induction legs generalizing w with
  | nil =>
    rw [List.append_nil] at hR
    exact (goes_pure ()).mpr hR
  | cons entry legs ih =>
    obtain ⟨supervisorId, leg⟩ := entry
    have hnot : supervisorId ∉ w.room.supervisors.ids := by
      intro hin
      have hsplit : ((w.room.supervisors ++ (supervisorId, leg) :: legs : Legs)).ids =
          w.room.supervisors.ids ++ supervisorId :: Legs.ids legs := List.map_append
      rw [hsplit] at hnodup
      exact (List.nodup_append.mp hnodup).2.2 supervisorId hin supervisorId List.mem_cons_self rfl
    refine Goes.bind ⟨rfl, Goes.bind ((goes_change _).mpr ?_)⟩
    simp only [Legs.set_of_notMem hnot]
    refine ih ?_ ?_
    · simpa using hnodup
    · simpa using hR

/-- A room as another worker takes it over: supervisors who had not answered are not in it. -/
def Room.takenOver (room : Room) : Room :=
  { room with pendingSupervisors := [], monitor := room.customer.map (·.rtpKey) }

theorem goes_adopt (room : Room) {n : Nat} (hroom : w.room = { name := n }) (hsaved : w.saved = some (snapshotOf room))
    (hagents : room.agents.ids.Nodup) (hnamed : ∀ entry ∈ room.agents, entry.2.agentId = some entry.1)
    (hsupervisors : room.supervisors.ids.Nodup) :
    adopt.Goes w fun _ w' => w' = { w with room := room.takenOver } := by
  refine Goes.bind ((goes_read _).mpr ?_)
  simp only [hroom]
  refine Goes.bind ((goes_read _).mpr ?_)
  simp only [hsaved]
  refine Goes.bind ((goes_change _).mpr (Goes.bind (Goes.bind ?_)))
  refine goes_adoptCustomer (by rw [hroom]) (Goes.bind (goes_adoptPendingAgent (Goes.bind ?_)))
  refine goes_adoptAgents ?_ hnamed (Goes.bind (goes_adoptSupervisors ?_ (Goes.bind ((goes_change _).mpr ?_))))
  · simpa [hroom, snapshotOf] using hagents
  · simpa [hroom, snapshotOf] using hsupervisors
  · refine ⟨rfl, rfl, ?_⟩
    simp [hroom, hsaved, snapshotOf, Room.takenOver]

end adoption

section takeover

variable {s : Station} {room : Room}

/-- What another worker makes of the room. -/
theorem Current.adopted (h : Current s) (hroom : s.room = some room) (hlegs : room.hasLegs = true) :
    ∃ snap, s.saved = some snap ∧ snap.customer.map Leg.unheard = room.customer.map Leg.unheard ∧
      (s.step .died).step (.operate .adopt []) =
        Station.after { s.died.world with room := Room.takenOver { room with customer := snap.customer } } := by
  obtain ⟨snap, hsaved, hunheard, hsnap⟩ := h.saved room hroom hlegs
  have hworld := s.world_room hroom
  have hadopt := goes_adopt (w := s.died.world) { room with customer := snap.customer } (n := s.worker + 1) rfl
    (hsaved.trans (congrArg some hsnap)) (hworld ▸ h.shaped.room.agents) (hworld ▸ h.shaped.room.named)
    (hworld ▸ h.shaped.room.supervisors)
  refine ⟨snap, hsaved, hunheard, ?_⟩
  unfold Goes Ends at hadopt
  split at hadopt
  · rename_i heq
    show (Station.perform s.died .adopt []).1 = _
    unfold Station.perform
    simp only [Station.died, Option.isNone_none, if_true, Operation.withoutRoom, Operation.code]
    rw [show (RoomMedia.adopt ⟨Station.world { s with worker := s.worker + 1, room := none }, []⟩) = _ from heq]
    exact congrArg Station.after hadopt.2
  · exact hadopt.elim

/-- After any operations, whichever of their commands failed, a worker that takes the call over has the room as it
was, without the supervisors who had not answered, and with digits listened for as they were when the room was
saved last. -/
theorem room_takenOver (events : List Event) (hroom : (Station.run {} events).room = some room)
    (hlegs : room.hasLegs = true) :
    let s := Station.run {} events
    let s' := (s.step .died).step (.operate .adopt [])
    ∃ snap, s.saved = some snap ∧ snap.customer.map Leg.unheard = room.customer.map Leg.unheard ∧
      s'.room = some (Room.takenOver { room with customer := snap.customer }) ∧ s'.server = s.server := by
  obtain ⟨snap, hsaved, hunheard, hadopted⟩ := (current_run events).adopted hroom hlegs
  refine ⟨snap, hsaved, hunheard, ?_⟩
  rw [hadopted]
  exact ⟨rfl, rfl⟩

end takeover

/-- A customer is answered; an agent's leg can't be made; digits are listened for, which is saved only with the
supervisor's leg; then they are not. -/
def listenedFor : List Event :=
  [.operate (.answerCustomer .rtp) [], .operate (.answerAgent 5) [true], .listenForDigits true,
    .operate (.offerSupervisor 7) [], .listenForDigits false]

theorem listenedFor_room_takenOver :
    let s := Station.run {} listenedFor
    let s' := (s.step .died).step (.operate .adopt [])
    ∃ snap, s.saved = some snap ∧ snap.customer.map Leg.unheard = s.roomFor.customer.map Leg.unheard ∧
      s'.room = some (Room.takenOver { s.roomFor with customer := snap.customer }) ∧ s'.server = s.server :=
  room_takenOver listenedFor rfl (by decide)

end Callio.RoomMedia
