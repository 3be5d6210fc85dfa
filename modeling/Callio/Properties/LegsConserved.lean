import Callio.Properties.RoomTakeover

/-! The media of a call. As long as no media command fails, FreeSWITCH has exactly the
endpoints of the room's legs, and rtpengine exactly their legs, through every operation
and every takeover by another worker of a room that was saved as it is; only a supervisor
who had not answered when a worker died leaves a leg behind. -/

namespace Callio.RoomMedia

open Concurrency Fallible
open Rooms (Kind Mode)

section operations

variable {lost : List Media} {w : World} {α : Type}

/-- Where `w` was, something like it is now. -/
abbrev Still (lost : List Media) (w w' : World) : Prop := Kept lost w' ∧ w'.seat = w.seat

theorem Still.idle {w' : World} {m : Code α} (h : Still lost w w') (hm : Idle m) : m.Goes w' fun _ => Still lost w :=
  (h.1.idle hm).mono fun _ _ h' => ⟨h'.1, h'.2.trans h.2⟩

/-! ## The customer's leg -/

/-- All media but the customer's. -/
def Room.othersThanCustomer (room : Room) : List Media :=
  room.pendingAgent.toList.map Leg.media ++ (room.agents.values.map Leg.media ++
    (room.supervisors.values.map Leg.media ++ room.pendingSupervisors.values.map Leg.media))

theorem Kept.customer (h : Kept lost w) :
    w.stock.Holds (w.room.customer.toList.map Leg.media ++ (w.room.othersThanCustomer ++ lost)) := by
  have hholds := h.holds
  rwa [Room.medias_eq, List.append_assoc] at hholds

/-- A new leg takes the place of the customer's, which is gone. -/
theorem still_customer {server : Server} {kind : Kind} {leg leg' : Leg} (h : Kept lost w)
    (hleg : (World.created { w with server } kind).stock.Holds (leg.media :: (w.room.othersThanCustomer ++ lost)))
    (hmedia : leg'.media = leg.media) : Still lost w { World.created { w with server } kind with
      room := { w.room with legSeq := w.room.legSeq + 1, customer := some leg' } } := by
  refine ⟨⟨?_, h.agents, h.named, h.supervisors, h.pending⟩, rfl⟩
  rw [← hmedia] at hleg
  exact hleg.perm (List.Perm.of_eq (by rw [Room.medias_eq]; rfl))

theorem kept_answerCustomer (h : Kept lost w) (transport : Transport) :
    (answerCustomer transport).Goes w fun _ => Still lost w := by
  refine Goes.bind ((goes_read _).mpr (Goes.bind (goes_destroyLeg h.customer fun server hserver => ?_)))
  refine Goes.bind (goes_legFromOffer hserver fun leg hleg => Goes.bind ⟨rfl, ?_⟩)
  exact Still.idle (still_customer h hleg (by rfl)) idle_watchCustomer

theorem kept_offerCustomer (h : Kept lost w) (transport : Transport) :
    (offerCustomer transport).Goes w fun _ => Still lost w := by
  refine Goes.bind ((goes_read _).mpr (Goes.bind (goes_destroyLeg h.customer fun server hserver => ?_)))
  exact Goes.bind (goes_legOffer hserver fun leg hleg => ⟨rfl, still_customer h hleg rfl⟩)

theorem kept_customerAnswered (h : Kept lost w) {leg : Leg} (hcustomer : w.room.customer = some leg) :
    customerAnswered.Goes w fun _ => Still lost w := by
  refine Goes.bind ((goes_read _).mpr ?_)
  rw [hcustomer]
  refine Goes.bind ⟨rfl, Goes.bind ⟨rfl, ?_⟩⟩
  refine Still.idle ⟨h.of_view ?_ rfl, rfl⟩ idle_watchCustomer
  simp [Room.view, hcustomer, Leg.media]

/-! ## The agents' legs -/

theorem kept_offerAgent (h : Kept lost w) : offerAgent.Goes w fun _ => Still lost w := by
  have hholds : w.stock.Holds (w.room.pendingAgent.toList.map Leg.media ++
      (w.room.customer.toList.map Leg.media ++ (w.room.agents.values.map Leg.media ++
        (w.room.supervisors.values.map Leg.media ++ w.room.pendingSupervisors.values.map Leg.media)) ++ lost)) := by
    refine h.holds.perm (List.perm_iff_count.mpr fun m => ?_)
    simp only [Room.medias_eq, List.count_append]
    omega
  refine Goes.bind ((goes_read _).mpr (Goes.bind (goes_destroyLeg hholds fun server hserver => ?_)))
  refine Goes.bind ((goes_change _).mpr (Goes.bind ?_))
  refine goes_legOffer (w := { w with server, room := { w.room with pendingAgent := none } }) hserver fun leg hleg => ?_
  refine (goes_change _).mpr ⟨⟨?_, h.agents, h.named, h.supervisors, h.pending⟩, rfl⟩
  refine Stock.Holds.perm hleg (List.perm_iff_count.mpr fun m => ?_)
  simp only [Room.medias_eq, World.created, List.count_append, List.count_cons, Option.toList_some, List.map_cons,
    List.map_nil, List.count_nil]
  omega

theorem goes_dropPreviousAgent (h : Kept lost w) (agentId : Nat) :
    (dropPreviousAgent agentId).Goes w fun _ w' => Still lost w w' ∧ agentId ∉ w'.room.agents.ids := by
  refine Goes.bind ((goes_read _).mpr ?_)
  cases hget : w.room.agents.get agentId with
  | none =>
    have hnot : agentId ∉ w.room.agents.ids := fun hin => by simpa [hget] using Legs.get_isSome.mpr hin
    exact (goes_pure _).mpr ⟨⟨h, rfl⟩, hnot⟩
  | some previous =>
    let room := { w.room with agents := w.room.agents.delete agentId }
    have hholds : w.stock.Holds ((some previous).toList.map Leg.media ++ (room.medias ++ lost)) := by
      refine h.holds.perm (List.perm_iff_count.mpr fun m => ?_)
      have hcount := ((Legs.values_perm_get agentId h.agents).map Leg.media).count_eq m
      rw [hget] at hcount
      simp only [Room.medias_eq, List.count_append, List.map_append, room] at hcount ⊢
      omega
    refine Goes.bind ((goes_change _).mpr (goes_destroyLeg hholds fun server hserver => ?_))
    exact ⟨⟨⟨hserver, Legs.nodup_delete h.agents agentId, fun entry hentry => h.named entry (List.mem_of_mem_filter hentry),
      h.supervisors, h.pending⟩, rfl⟩, Legs.notMem_delete _ _⟩

theorem goes_removeAgents (h : Kept lost w) (ids : List Nat) : (removeAgents ids).Goes w fun _ => Still lost w := by
  induction ids generalizing w with
  | nil => exact (goes_pure _).mpr ⟨h, rfl⟩
  | cons agentId ids ih =>
    refine Goes.bind ((goes_dropPreviousAgent h agentId).mono fun _ w' hw' => ?_)
    exact (ih hw'.1.1).mono fun _ _ h' => ⟨h'.1, h'.2.trans hw'.1.2⟩

/-- A leg made for an agent who has none. -/
theorem still_agent {w' : World} {leg : Leg} {agentId : Nat} (h : Still lost w w') (hnot : agentId ∉ w'.room.agents.ids)
    (hleg : (w'.created .agent).stock.Holds (leg.media :: (w'.room.medias ++ lost))) :
    Still lost w { w'.created .agent with
      room := { w'.room with legSeq := w'.room.legSeq + 1, agents := w'.room.agents.set agentId { leg with agentId } } } := by
  refine ⟨⟨?_, Legs.nodup_set h.1.agents _ _, fun entry hentry => ?_, h.1.supervisors, h.1.pending⟩, h.2⟩
  · refine Stock.Holds.perm hleg (List.perm_iff_count.mpr fun m => ?_)
    have hcount := ((Legs.values_perm_set h.1.agents agentId { leg with agentId }).map Leg.media).count_eq m
    rw [Legs.delete_of_notMem hnot, List.map_cons, List.count_cons] at hcount
    simp only [Room.medias_eq, List.count_append, List.count_cons]
    rw [show Leg.media { leg with agentId } = leg.media from rfl] at hcount
    omega
  · rcases Legs.mem_of_mem_set hentry with rfl | hentry
    · rfl
    · exact h.1.named entry hentry

theorem kept_answerAgent (h : Kept lost w) (agentId : Nat) : (answerAgent agentId).Goes w fun _ => Still lost w := by
  refine Goes.bind ((goes_dropPreviousAgent h agentId).mono fun _ w' hw' => ?_)
  refine Goes.bind (goes_legFromOffer hw'.1.1.holds fun leg hleg => ?_)
  exact (goes_change _).mpr (still_agent hw'.1 hw'.2 hleg)

theorem kept_agentAccepted (h : Kept lost w) {leg : Leg} (hpending : w.room.pendingAgent = some leg) (agentId : Nat) :
    (agentAccepted agentId).Goes w fun _ => Still lost w := by
  let leg' : Leg := { leg with answered := true, agentId }
  let room := { w.room with pendingAgent := none, agents := w.room.agents.set agentId leg' }
  have hholds : w.stock.Holds ((w.room.agents.get agentId).toList.map Leg.media ++ (room.medias ++ lost)) := by
    refine h.holds.perm (List.perm_iff_count.mpr fun m => ?_)
    have hget := ((Legs.values_perm_get agentId h.agents).map Leg.media).count_eq m
    have hset := ((Legs.values_perm_set h.agents agentId leg').map Leg.media).count_eq m
    simp only [Room.medias_eq, List.count_append, List.map_append, List.map_cons, List.count_cons, room, hpending,
      Option.toList_some, Option.toList_none, List.map_nil, List.count_nil] at hget hset ⊢
    rw [show Leg.media leg' = leg.media from rfl] at hset
    omega
  refine Goes.bind ((goes_read _).mpr ?_)
  rw [hpending]
  refine Goes.bind ((goes_change _).mpr (Goes.bind ⟨rfl, Goes.bind ((goes_read _).mpr (Goes.bind ?_))⟩))
  refine goes_destroyLeg (w := { w with room := { w.room with pendingAgent := none } }) hholds fun server hserver => ?_
  refine (goes_change _).mpr ⟨⟨hserver, Legs.nodup_set h.agents _ _, fun entry hentry => ?_, h.supervisors, h.pending⟩, rfl⟩
  rcases Legs.mem_of_mem_set hentry with rfl | hentry
  · rfl
  · exact h.named entry hentry

theorem kept_dropAgent (h : Kept lost w) (agentId : Option Nat) : (dropAgent agentId).Goes w fun _ => Still lost w := by
  refine Goes.bind ((goes_read _).mpr (Goes.bind ((goes_removeAgents h _).mono fun _ w' hw' => ?_)))
  refine Goes.bind ((goes_read _).mpr ?_)
  split
  · have hidle : Idle (do modify fun room => { room with agentPrivate := false }; tone true) :=
      (idle_modify (fun _ => by rfl) fun _ => by rfl).bind fun _ => idle_tone true
    exact hw'.idle hidle
  · exact (goes_pure _).mpr hw'

/-! ## Supervisors' legs -/

theorem goes_dropPreviousSupervisor (h : Kept lost w) (supervisorId : Nat) :
    (dropPreviousSupervisor supervisorId).Goes w fun _ w' =>
      Still lost w w' ∧ supervisorId ∉ w'.room.supervisors.ids := by
  refine Goes.bind ((goes_read _).mpr ?_)
  cases hget : w.room.supervisors.get supervisorId with
  | none =>
    have hnot : supervisorId ∉ w.room.supervisors.ids := fun hin => by simpa [hget] using Legs.get_isSome.mpr hin
    exact (goes_pure _).mpr ⟨⟨h, rfl⟩, hnot⟩
  | some previous =>
    let room := { w.room with supervisors := w.room.supervisors.delete supervisorId }
    have hholds : w.stock.Holds ((some previous).toList.map Leg.media ++ (room.medias ++ lost)) := by
      refine h.holds.perm (List.perm_iff_count.mpr fun m => ?_)
      have hcount := ((Legs.values_perm_get supervisorId h.supervisors).map Leg.media).count_eq m
      rw [hget] at hcount
      simp only [Room.medias_eq, List.count_append, List.map_append, room] at hcount ⊢
      omega
    refine Goes.bind ((goes_change _).mpr (goes_destroyLeg hholds fun server hserver => ?_))
    exact ⟨⟨⟨hserver, h.agents, h.named, Legs.nodup_delete h.supervisors supervisorId, h.pending⟩, rfl⟩,
      Legs.notMem_delete _ _⟩

theorem goes_removeSupervisors (h : Kept lost w) (ids : List Nat) :
    (removeSupervisors ids).Goes w fun _ => Still lost w := by
  induction ids generalizing w with
  | nil => exact (goes_pure _).mpr ⟨h, rfl⟩
  | cons supervisorId ids ih =>
    refine Goes.bind ((goes_dropPreviousSupervisor h supervisorId).mono fun _ w' hw' => ?_)
    exact (ih hw'.1.1).mono fun _ _ h' => ⟨h'.1, h'.2.trans hw'.1.2⟩

theorem kept_created (h : Kept lost w) {kind : Kind} {leg : Leg}
    (hleg : (w.created kind).stock.Holds (leg.media :: (w.room.medias ++ lost))) :
    Kept (leg.media :: lost) (w.created kind) :=
  ⟨hleg.perm List.perm_middle.symm, h.agents, h.named, h.supervisors, h.pending⟩

/-- The leg was in nobody's place. -/
theorem goes_joinSupervisor {leg : Leg} (h : Kept (leg.media :: lost) w) {supervisorId : Nat}
    (hnot : supervisorId ∉ w.room.supervisors.ids) :
    (joinSupervisor supervisorId leg).Goes w fun _ => Still lost w := by
  have hmode : ∃ mode, (if w.room.supervisors.isEmpty then { w.room with mode := .listen } else w.room) =
      { w.room with mode } := by
    split
    · exact ⟨.listen, rfl⟩
    · exact ⟨w.room.mode, rfl⟩
  obtain ⟨mode, hmode⟩ := hmode
  refine Goes.bind ((goes_change _).mpr ?_)
  simp only [hmode]
  refine Goes.bind (goes_join fun leg' server hmedia _ hstock => Goes.bind ((goes_change _).mpr ?_))
  refine Still.idle ⟨⟨?_, h.agents, h.named, Legs.nodup_set h.supervisors _ _, h.pending⟩, rfl⟩ idle_rules
  refine Stock.Holds.perm (hstock ▸ h.holds) (List.perm_iff_count.mpr fun m => ?_)
  have hcount := ((Legs.values_perm_set h.supervisors supervisorId leg').map Leg.media).count_eq m
  rw [Legs.delete_of_notMem hnot, List.map_cons, hmedia, List.count_cons] at hcount
  simp only [Room.medias_eq, List.count_append, List.count_cons]
  omega

theorem kept_addSupervisor (h : Kept lost w) (supervisorId : Nat) :
    (addSupervisor supervisorId).Goes w fun _ => Still lost w := by
  refine Goes.bind ((goes_dropPreviousSupervisor h supervisorId).mono fun _ w' hw' => ?_)
  refine Goes.bind (goes_legFromOffer hw'.1.1.holds fun leg hleg => ?_)
  exact (goes_joinSupervisor (kept_created hw'.1.1 hleg) hw'.2).mono fun _ _ h' => ⟨h'.1, h'.2.trans hw'.1.2⟩

theorem kept_offerSupervisor (h : Kept lost w) (supervisorId : Nat) :
    (offerSupervisor supervisorId).Goes w fun _ => Still lost w := by
  let room := { w.room with pendingSupervisors := w.room.pendingSupervisors.delete supervisorId }
  have hholds : w.stock.Holds ((w.room.pendingSupervisors.get supervisorId).toList.map Leg.media ++ (room.medias ++ lost)) := by
    refine h.holds.perm (List.perm_iff_count.mpr fun m => ?_)
    have hcount := ((Legs.values_perm_get supervisorId h.pending).map Leg.media).count_eq m
    simp only [Room.medias_eq, List.count_append, List.map_append, room] at hcount ⊢
    omega
  refine Goes.bind ((goes_read _).mpr (Goes.bind (goes_destroyLeg hholds fun server hserver => Goes.bind ?_)))
  refine goes_legOffer hserver fun leg hleg => (goes_change _).mpr ?_
  refine ⟨⟨?_, h.agents, h.named, h.supervisors, Legs.nodup_set h.pending _ _⟩, rfl⟩
  refine Stock.Holds.perm hleg (List.perm_iff_count.mpr fun m => ?_)
  have hcount := ((Legs.values_perm_set h.pending supervisorId leg).map Leg.media).count_eq m
  rw [List.map_cons, List.count_cons] at hcount
  simp only [Room.medias_eq, World.created, List.count_append, List.count_cons, room]
  omega

theorem kept_supervisorAnswered (h : Kept lost w) {supervisorId : Nat} {leg : Leg}
    (hpending : w.room.pendingSupervisors.get supervisorId = some leg) :
    (supervisorAnswered supervisorId).Goes w fun _ => Still lost w := by
  let room := { w.room with pendingSupervisors := w.room.pendingSupervisors.delete supervisorId }
  have hkept : Kept (Leg.media { leg with answered := true } :: lost) { w with room } := by
    refine ⟨h.holds.perm (List.perm_iff_count.mpr fun m => ?_), h.agents, h.named, h.supervisors,
      Legs.nodup_delete h.pending _⟩
    have hcount := ((Legs.values_perm_get supervisorId h.pending).map Leg.media).count_eq m
    rw [hpending] at hcount
    simp only [Room.medias_eq, List.count_append, List.count_cons, List.map_append, Option.toList_some, List.map_cons,
      List.map_nil, List.count_nil, room] at hcount ⊢
    rw [show Leg.media { leg with answered := true } = leg.media from rfl]
    omega
  refine Goes.bind ((goes_read _).mpr ?_)
  rw [hpending]
  refine Goes.bind ((goes_change _).mpr (Goes.bind ⟨rfl, Goes.bind ?_⟩))
  refine (goes_dropPreviousSupervisor hkept supervisorId).mono fun _ w' hw' => ?_
  exact (goes_joinSupervisor hw'.1.1 hw'.2).mono fun _ _ h' => ⟨h'.1, h'.2.trans hw'.1.2⟩

theorem kept_removeSupervisor (h : Kept lost w) (supervisorId : Option Nat) :
    (removeSupervisor supervisorId).Goes w fun _ => Still lost w := by
  refine Goes.bind ((goes_read _).mpr (Goes.bind ((goes_removeSupervisors h _).mono fun _ w' hw' => ?_)))
  refine Goes.bind ((goes_read _).mpr (Still.idle hw' ?_))
  refine Idle.bind (idle_modify (fun room => ?_) fun room => ?_) fun _ =>
    idle_rules.bind fun _ => idle_theRoom.bind fun _ => idle_pure _
  · split <;> rfl
  · split <;> rfl

/-! ## Closing -/

theorem goes_close (h : Kept lost w) (hheld : w.held = .this) :
    close.Goes w fun _ w' => w'.held = .nothing ∧ w'.worker = w.worker ∧ w'.stock.Holds lost := by
  refine Goes.bind ((goes_read _).mpr ?_)
  rw [hheld]
  refine Goes.bind ((goes_change _).mpr (Goes.bind ((goes_read _).mpr (Goes.bind ?_))))
  have hlegs : w.stock.Holds (w.room.legs.map Leg.media ++ lost) := h.holds
  exact goes_destroyLegs hlegs fun server hserver => (goes_change _).mpr ⟨rfl, rfl, hserver⟩

/-! ## Any operation -/

/-- No operation but `close` and `adopt` makes or loses a leg, whether it throws or not. -/
theorem kept_code (h : Kept lost w) (op : Operation) (hclose : op ≠ .close) (hadopt : op ≠ .adopt) :
    op.code.Ends ⟨w, []⟩ (fun _ w' => Still lost w w'.state) fun w' => Still lost w w'.state := by
  have hgoes : ∀ {m : Code Unit}, (m.Goes w fun _ => Still lost w) →
      (do m; return false : Code Bool).Ends ⟨w, []⟩ (fun _ w' => Still lost w w'.state) fun w' => Still lost w w'.state :=
    fun hm => Ends.mono (Goes.bind (hm.mono fun _ _ h' => (goes_pure false).mpr h')) (fun _ _ h' => h'.2) fun _ h' => h'.elim
  have hidle : ∀ {m : Code Bool}, Idle m →
      m.Ends ⟨w, []⟩ (fun _ w' => Still lost w w'.state) fun w' => Still lost w w'.state :=
    fun hm => Ends.mono (h.idle hm) (fun _ _ h' => h'.2) fun _ h' => h'.elim
  cases op with
  | answerCustomer transport => exact hgoes (kept_answerCustomer h transport)
  | offerCustomer transport => exact hgoes (kept_offerCustomer h transport)
  | customerAnswered =>
    cases hcustomer : w.room.customer with
    | none =>
      have hthrows : customerAnswered.Ends ⟨w, []⟩ (fun _ _ => False) fun w' => Still lost w w'.state := by
        unfold customerAnswered
        rw [ends_bind]
        exact (ends_read _).mpr (by rw [hcustomer]; exact ⟨h, rfl⟩)
      exact hthrows.bind_return (fun _ _ h' => h'.elim) fun _ h' => h'
    | some leg => exact hgoes (kept_customerAnswered h hcustomer)
  | offerAgent => exact hgoes (kept_offerAgent h)
  | agentAccepted agentId =>
    cases hpending : w.room.pendingAgent with
    | none =>
      have hthrows : (agentAccepted agentId).Ends ⟨w, []⟩ (fun _ _ => False) fun w' => Still lost w w'.state := by
        unfold agentAccepted
        rw [ends_bind]
        exact (ends_read _).mpr (by rw [hpending]; exact ⟨h, rfl⟩)
      exact hthrows.bind_return (fun _ _ h' => h'.elim) fun _ h' => h'
    | some leg => exact hgoes (kept_agentAccepted h hpending agentId)
  | answerAgent agentId => exact hgoes (kept_answerAgent h agentId)
  | dropAgent agentId => exact hgoes (kept_dropAgent h agentId)
  | bridge recorded => exact hidle (idle_bridge recorded)
  | addSupervisor supervisorId => exact hgoes (kept_addSupervisor h supervisorId)
  | offerSupervisor supervisorId => exact hgoes (kept_offerSupervisor h supervisorId)
  | supervisorAnswered supervisorId =>
    cases hpending : w.room.pendingSupervisors.get supervisorId with
    | none =>
      have hthrows : (supervisorAnswered supervisorId).Ends ⟨w, []⟩ (fun _ _ => False) fun w' => Still lost w w'.state := by
        unfold supervisorAnswered
        rw [ends_bind]
        exact (ends_read _).mpr (by rw [hpending]; exact ⟨h, rfl⟩)
      exact hthrows.bind_return (fun _ _ h' => h'.elim) fun _ h' => h'
    | some leg => exact hgoes (kept_supervisorAnswered h hpending)
  | setSupervisorMode mode => exact hidle (idle_setSupervisorMode mode)
  | setAgentPrivate active => exact hidle (idle_setAgentPrivate active)
  | removeSupervisor supervisorId =>
    exact Ends.mono (kept_removeSupervisor h supervisorId) (fun _ _ h' => h'.2) fun _ h' => h'.elim
  | startHold audio => exact hgoes ((h.idle (idle_startHold audio)).mono fun _ _ h' => h')
  | stopHold => exact hgoes ((h.idle (idle_hold false none)).mono fun _ _ h' => h')
  | close => exact absurd rfl hclose
  | adopt => exact absurd rfl hadopt

end operations

/-! ## Whole runs -/

/-- The legs that the servers hold, with the media of those that dead workers lost, after operations none of
whose commands failed. A worker that dies is taken over from where its room has legs, or nothing is saved of
it: a room without legs is not saved, and what was saved before would come back. -/
inductive Reached : Station → List Media → Prop
  | boot : Reached {} []
  | operate {s : Station} {lost : List Media} (h : Reached s lost) (op : Operation) (hop : op ≠ .adopt) :
      Reached (s.step (.operate op [])) lost
  | listenForDigits {s : Station} {lost : List Media} (h : Reached s lost) (on : Bool) :
      Reached (s.step (.listenForDigits on)) lost
  | takenOver {s : Station} {lost : List Media} (h : Reached s lost)
      (hsaved : s.roomFor.hasLegs = true ∨ s.saved = none) :
      Reached ((s.step .died).step (.operate .adopt [])) (s.roomFor.pendingSupervisors.values.map Leg.media ++ lost)

/-- What holds of a station between two operations. -/
structure InOrder (s : Station) (lost : List Media) : Prop where
  kept : Kept lost s.world
  gone : ∀ m ∈ lost, m.2.worker < s.worker

section runs

variable {s : Station} {lost : List Media}

theorem inOrder_boot : InOrder {} [] where
  kept := by
    refine ⟨?_, List.nodup_nil, fun _ hentry => absurd hentry List.not_mem_nil, List.nodup_nil, List.nodup_nil⟩
    show Stock.Holds ⟨0, 0, [], 0, [], 0⟩ []
    exact ⟨List.Perm.nil, List.Perm.nil, ⟨List.nodup_nil, List.nodup_nil⟩, nofun, nofun, rfl⟩
  gone _ hm := absurd hm List.not_mem_nil

/-- Numbers start anew with a new room; what dead workers lost has other keys. -/
theorem Stock.Holds.anew {stock : Stock} {medias : List Media} (h : stock.Holds medias) (legSeq worker : Nat)
    (hgone : ∀ m ∈ medias, m.2.worker < worker) : Holds { stock with legSeq, worker } medias :=
  ⟨h.endpoints, h.rtp, h.distinct, h.fresh, fun m hm => .inl (hgone m hm), h.strays⟩

/-- A worker without a room starts anew. -/
theorem inOrder_empty {s : Station} {lost : List Media} (hroom : s.room = none)
    (hholds : (World.stock { s.world with room := { name := s.worker } }).Holds lost) (hgone : ∀ m ∈ lost, m.2.worker < s.worker) :
    InOrder s lost := by
  have hworld : s.world.room = { name := s.worker } := by
    unfold Station.world Station.roomFor
    rw [hroom]
    rfl
  refine ⟨⟨?_, ?_, ?_, ?_, ?_⟩, hgone⟩
  · rw [show s.world = { s.world with room := { name := s.worker } } by rw [← hworld]]
    exact hholds
  · rw [hworld]
    exact List.nodup_nil
  · rw [hworld]
    exact fun _ hentry => absurd hentry List.not_mem_nil
  · rw [hworld]
    exact List.nodup_nil
  · rw [hworld]
    exact List.nodup_nil

theorem inOrder_after {w : World} (h : Kept lost w) (hheld : w.held = .this)
    (hgone : ∀ m ∈ lost, m.2.worker < w.worker) :
    InOrder (Station.after w) lost := by
  unfold Station.after
  simp only [hheld, if_true, true_and]
  exact ⟨⟨h.holds, h.agents, h.named, h.supervisors, h.pending⟩, hgone⟩

theorem InOrder.operate (h : InOrder s lost) (op : Operation) (hop : op ≠ .adopt) :
    InOrder (s.step (.operate op [])) lost := by
  show InOrder (s.perform op []).1 lost
  unfold Station.perform
  split
  · exact h
  · have hheld : s.world.held = .this := rfl
    by_cases hclose : op = .close
    · subst hclose
      have hcode : (Operation.code .close).Goes s.world fun _ w' =>
          w'.held = .nothing ∧ w'.worker = s.worker ∧ w'.stock.Holds lost :=
        Goes.bind ((goes_close h.kept hheld).mono fun _ _ h' => (goes_pure false).mpr h')
      unfold Goes Ends at hcode
      split at hcode
      · rename_i w' heq
        obtain ⟨-, hnothing, hworker, hholds⟩ := hcode
        rw [heq]
        unfold Station.after
        simp only [hnothing, reduceCtorEq, if_false]
        have hgone : ∀ m ∈ lost, m.2.worker < w'.state.worker := hworker ▸ h.gone
        exact inOrder_empty rfl (hholds.anew 0 _ hgone) hgone
      · exact hcode.elim
    · have hcode := kept_code h.kept op hclose hop
      have hafter : ∀ w' : World, Still lost s.world w' → InOrder (Station.after w') lost := by
        rintro w' ⟨hkept, hseat⟩
        have hworker : w'.worker = s.worker := congrArg Prod.snd hseat
        exact inOrder_after hkept (congrArg Prod.fst hseat) (hworker ▸ h.gone)
      unfold Ends at hcode
      split at hcode
      · rename_i heq
        rw [heq]
        exact hafter _ hcode
      · rename_i heq
        rw [heq]
        exact hafter _ hcode

theorem InOrder.listenForDigits (h : InOrder s lost) (on : Bool) : InOrder (s.step (.listenForDigits on)) lost := by
  cases hroom : s.room with
  | none =>
    have hsame : s.step (.listenForDigits on) = s := by
      unfold Station.step Station.listenForDigits
      rw [hroom]
      exact congrArg (fun room => { s with room }) hroom.symm
    rwa [hsame]
  | some room =>
    let room' : Room := { room with customer := room.customer.map fun leg => { leg with listening := on } }
    have hstep : s.step (.listenForDigits on) = { s with room := some room' } := by
      unfold Station.step Station.listenForDigits
      rw [hroom]
      rfl
    have hworld := s.world_room hroom
    rw [hstep]
    refine ⟨h.kept.of_view ?_ ?_, h.gone⟩
    · have hcustomer : room'.customer.map Leg.media = room.customer.map Leg.media := Option.map_map ..
      rw [hworld]
      show room'.view = room.view
      simp only [Room.view, hcustomer, room']
    · unfold World.stock
      rw [hworld]
      rfl

/-- Another worker makes the room anew, without the supervisors who had not answered. -/
theorem InOrder.takenOver (h : InOrder s lost) (hcurrent : Current s) {room : Room} (hroom : s.room = some room)
    (hlegs : room.hasLegs = true) :
    InOrder ((s.step .died).step (.operate .adopt [])) (room.pendingSupervisors.values.map Leg.media ++ lost) := by
  obtain ⟨snap, -, hunheard, hadopted⟩ := hcurrent.adopted hroom hlegs
  have hworld := s.world_room hroom
  have hkept := h.kept
  have hmedia : snap.customer.map Leg.media = room.customer.map Leg.media := by
    have hcongr := congrArg (Option.map Leg.media) hunheard
    rwa [Option.map_map, Option.map_map] at hcongr
  have htoList : snap.customer.toList.map Leg.media = room.customer.toList.map Leg.media := by
    rw [← Option.toList_map, ← Option.toList_map, hmedia]
  have hperm : (s.world.room.medias ++ lost).Perm ((Room.takenOver { room with customer := snap.customer }).medias ++
      (room.pendingSupervisors.values.map Leg.media ++ lost)) := by
    refine List.perm_iff_count.mpr fun m => ?_
    rw [hworld]
    simp only [Room.medias_eq, Room.takenOver, List.count_append, htoList, Legs.values, List.map_nil, List.count_nil]
    omega
  have hholds := hkept.holds.perm hperm
  have hgone : ∀ m ∈ (Room.takenOver { room with customer := snap.customer }).medias ++
      (room.pendingSupervisors.values.map Leg.media ++ lost), m.2.worker < s.worker + 1 := by
    intro m hm
    rcases hholds.known m hm with hlt | ⟨heq, -⟩
    · exact Nat.lt_succ_of_lt hlt
    · exact Nat.lt_succ_of_le (Nat.le_of_eq heq)
  rw [hadopted]
  refine inOrder_after ⟨hholds.anew _ _ hgone, ?_, ?_, ?_, List.nodup_nil⟩ rfl fun m hm =>
    hgone m (List.mem_append_right _ hm)
  · exact hworld ▸ hkept.agents
  · exact hworld ▸ hkept.named
  · exact hworld ▸ hkept.supervisors

/-- Where nothing was saved, another worker finds no room; only supervisors who had not answered were in it. -/
theorem InOrder.abandoned (h : InOrder s lost) (hlegs : s.roomFor.hasLegs = false) (hsaved : s.saved = none) :
    InOrder ((s.step .died).step (.operate .adopt [])) (s.roomFor.pendingSupervisors.values.map Leg.media ++ lost) := by
  have hmedias : s.world.room.medias = s.roomFor.pendingSupervisors.values.map Leg.media := by
    show s.roomFor.medias = _
    simp only [Room.hasLegs, Bool.or_eq_false_iff, Bool.not_eq_false', List.isEmpty_iff, Option.isSome_eq_false_iff,
      Option.isNone_iff_eq_none] at hlegs
    obtain ⟨⟨⟨hcustomer, hpendingAgent⟩, hagents⟩, hsupervisors⟩ := hlegs
    simp [Room.medias_eq, hcustomer, hpendingAgent, hagents, hsupervisors, Legs.values]
  have hholds := h.kept.holds
  rw [hmedias] at hholds
  have hgone : ∀ m ∈ s.roomFor.pendingSupervisors.values.map Leg.media ++ lost, m.2.worker < s.worker + 1 := by
    intro m hm
    rcases hholds.known m hm with hlt | ⟨heq, -⟩
    · exact Nat.lt_succ_of_lt hlt
    · exact Nat.lt_succ_of_le (Nat.le_of_eq heq)
  have hstep : (s.step .died).step (.operate .adopt []) = s.died := by
    show (Station.perform s.died .adopt []).1 = s.died
    have hnone : (RoomMedia.adopt ⟨s.died.world, []⟩) =
        .ok false ⟨{ s.died.world with held := .nothing }, []⟩ := by
      unfold Station.died Station.world
      rw [hsaved]
      rfl
    unfold Station.perform
    simp only [Station.died, Option.isNone_none, if_true, Operation.withoutRoom, Operation.code]
    rw [show (RoomMedia.adopt ⟨Station.world { s with worker := s.worker + 1, room := none }, []⟩) = _ from hnone]
    rfl
  rw [hstep]
  exact inOrder_empty rfl (hholds.anew 0 _ hgone) hgone

/-- Nothing but operations, deaths and takeovers happened. -/
theorem Reached.run (h : Reached s lost) : ∃ events, s = Station.run {} events := by
  have hsnoc : ∀ (events : List Event) (event : Event),
      (Station.run {} events).step event = Station.run {} (events ++ [event]) := fun events event => by
    rw [Station.run, Station.run, List.foldl_append]
    rfl
  induction h with
  | boot => exact ⟨[], rfl⟩
  | operate h op hop ih =>
    obtain ⟨events, rfl⟩ := ih
    exact ⟨_, hsnoc events _⟩
  | listenForDigits h on ih =>
    obtain ⟨events, rfl⟩ := ih
    exact ⟨_, hsnoc events _⟩
  | takenOver h hsaved ih =>
    obtain ⟨events, rfl⟩ := ih
    exact ⟨_, by rw [hsnoc, hsnoc]⟩

theorem inOrder_of_reached (h : Reached s lost) : InOrder s lost := by
  induction h with
  | boot => exact inOrder_boot
  | operate h op hop ih => exact ih.operate op hop
  | listenForDigits h on ih => exact ih.listenForDigits on
  | @takenOver s lost h hsaved ih =>
    obtain ⟨events, hevents⟩ := h.run
    have hcurrent : Current s := hevents ▸ current_run events
    cases hroom : s.room with
    | none =>
      have hfor : s.roomFor = { name := s.worker } := by
        unfold Station.roomFor
        rw [hroom]
        rfl
      rw [hfor] at hsaved
      exact ih.abandoned (by rw [hfor]; rfl) (hsaved.resolve_left Bool.false_ne_true)
    | some room =>
      have hfor : s.roomFor = room := s.world_room hroom
      rw [hfor] at hsaved ⊢
      by_cases hlegs : room.hasLegs = true
      · exact ih.takenOver hcurrent hroom hlegs
      · rw [← hfor]
        exact ih.abandoned (by rw [hfor]; exact Bool.eq_false_iff.mpr hlegs) (hsaved.resolve_left hlegs)

end runs

/-- A customer is answered, a supervisor is called. -/
def called : Station :=
  (({} : Station).step (.operate (.answerCustomer .rtp) [])).step (.operate (.offerSupervisor 7) [])

theorem called_reached : Reached called [] :=
  .operate (.operate .boot _ (by decide)) _ (by decide)

end Callio.RoomMedia
