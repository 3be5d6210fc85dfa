import Mathlib
import Callio.Media.RoomMedia

/-! What each internal step of `RoomMedia` leaves alone: the server's commands never touch the
room, and most operations never touch who is in it and what they may do (its outline). -/

namespace Callio.RoomMedia

open Concurrency Fallible
open Rooms (Kind Mode)

/-! ## Maps of legs -/

namespace Legs

theorem ids_delete (legs : Legs) (id : Nat) : (legs.delete id).ids = legs.ids.filter (· ≠ id) := by
  unfold delete ids
  rw [List.filter_map]
  rfl

theorem get_eq_none {legs : Legs} {id : Nat} (h : id ∉ legs.ids) : legs.get id = none := by
  apply List.lookup_eq_none_iff.mpr
  intro entry hentry
  have hne : id ≠ entry.1 := by
    rintro rfl
    exact h (List.mem_map_of_mem hentry)
  simpa using hne

theorem get_isSome {legs : Legs} {id : Nat} : (legs.get id).isSome = true ↔ id ∈ legs.ids := by
  constructor
  · intro h
    by_contra hnot
    rw [get_eq_none hnot] at h
    cases h
  · intro h
    cases hget : legs.get id with
    | some leg => rfl
    | none =>
      obtain ⟨entry, hentry, rfl⟩ := List.mem_map.mp h
      have hne := List.lookup_eq_none_iff.mp hget entry hentry
      simp at hne

theorem ids_set (legs : Legs) (id : Nat) (leg : Leg) :
    (legs.set id leg).ids = if id ∈ legs.ids then legs.ids else legs.ids ++ [id] := by
  unfold set
  by_cases h : id ∈ legs.ids
  · rw [if_pos (get_isSome.mpr h), if_pos h]
    unfold ids
    rw [List.map_map]
    apply List.map_congr_left
    intro entry _
    by_cases hid : entry.1 = id <;> simp [hid]
  · rw [if_neg (fun hs => h (get_isSome.mp hs)), if_neg h]
    exact List.map_append

/-- An entry that is there keeps the map's ids. -/
theorem ids_set_of_get {legs : Legs} {id : Nat} {leg : Leg} (h : legs.get id = some leg)
    (leg' : Leg) : (legs.set id leg').ids = legs.ids := by
  have hmem : id ∈ legs.ids := get_isSome.mp (by rw [h]; rfl)
  rw [ids_set, if_pos hmem]

theorem set_ne_nil (legs : Legs) (id : Nat) (leg : Leg) : legs.set id leg ≠ [] := by
  intro h
  have hids := ids_set legs id leg
  rw [h] at hids
  split at hids
  · rename_i hmem
    rw [← hids] at hmem
    cases hmem
  · exact List.append_ne_nil_of_right_ne_nil _ (List.cons_ne_nil _ _) hids.symm

theorem ids_eq_nil {legs : Legs} : legs.ids = [] ↔ legs = [] := List.map_eq_nil_iff

end Legs

/-! ## The server's commands -/

/-- All but the media server. -/
def bare (w : World) : Nat × Room × Held × Option Snapshot := (w.worker, w.room, w.held, w.saved)

section Server

variable {τ : Type} {f : World → τ}

/-- What the server's commands leave alone. -/
def Serverless (f : World → τ) : Prop := ∀ w server, f { w with server } = f w

theorem serverless_bare : Serverless bare := fun _ _ => rfl

theorem issues_send (h : Serverless f) (effect : Server → Server) : Issues f 1 (send effect) :=
  issues_command fun w => h w _

theorem issues_make (h : Serverless f) (effect : Server → Server × Nat) :
    Issues f 1 (make effect) :=
  issues_command fun w => h w _

theorem issues_api (h : Serverless f) : Issues f 1 api := issues_send h id

theorem passes_caught_send (h : Serverless f) (effect : Server → Server) :
    Passes f 1 (caught (send effect)) :=
  passes_caught_command fun w => h w _

theorem passes_deleteRtp (h : Serverless f) (rtpKey : RtpKey) : Passes f 1 (deleteRtp rtpKey) :=
  passes_caught_send h _

/-- The commands that destroy a leg. -/
def destroyCost (leg : Option Leg) : Nat := if leg.isSome then 2 else 0

theorem passes_destroyLeg (h : Serverless f) (leg : Option Leg) :
    Passes f (destroyCost leg) (destroyLeg leg) := by
  cases leg with
  | none => exact passes_pure ()
  | some leg => exact (passes_caught_send h _).bind fun _ => passes_deleteRtp h _

theorem keeps_destroyLegs (h : Serverless f) (legs : List Leg) : Keeps f (destroyLegs legs) := by
  induction legs with
  | nil => exact keeps_pure ()
  | cons leg legs ih => exact (passes_destroyLeg h _).keeps.bind fun _ => ih

theorem issues_applyAnswer (h : Serverless f) (leg : Leg) : Issues f 2 (applyAnswer leg) :=
  (issues_api h).bind fun _ => (issues_api h).bind fun _ => (passes_pure _).issues

theorem keeps_join (h : Serverless f) (leg : Leg) : Keeps f (join leg) := by
  unfold join
  split
  · exact keeps_pure _
  · exact (issues_make h _).keeps.bind fun _ =>
      (passes_caught_send h _).keeps.bind fun _ => keeps_pure _

theorem keeps_answeredAgentLeg (h : Serverless f) (leg : Leg) : Keeps f (answeredAgentLeg leg) :=
  Keeps.onFailure ((issues_applyAnswer h leg).keeps.bind fun _ =>
    (issues_api h).keeps.bind fun _ => keeps_pure _) (passes_destroyLeg h _).keeps

/-! ### The rules -/

/-- The commands the rules take for one supervisor's leg. -/
def supervisorCost (cust : Option Nat) (leg : Leg) : Nat :=
  if leg.memberId.isSome then (if cust.isSome then 2 else 1) else 0

def agentCost (leg : Leg) : Nat := if leg.memberId.isSome then 1 else 0

/-- The commands `_rules` takes. -/
def ruleCost (room : Room) : Nat :=
  (room.supervisors.values.map (supervisorCost room.customerId)).sum +
    if room.customerId.isSome then (room.agents.values.map agentCost).sum else 0

theorem issues_supervisorRule (h : Serverless f) (cust : Option Nat) (leg : Leg) :
    Issues f (supervisorCost cust leg) (supervisorRule cust leg) := by
  unfold supervisorRule supervisorCost
  cases leg.memberId with
  | none => exact (passes_pure ()).issues
  | some memberId =>
    cases cust with
    | none => exact (issues_api h).bind fun _ => (passes_pure ()).issues
    | some cust => exact (issues_api h).bind fun _ => issues_api h

theorem issues_agentRule (h : Serverless f) (leg : Leg) :
    Issues f (agentCost leg) (agentRule leg) := by
  unfold agentRule agentCost
  cases leg.memberId with
  | none => exact (passes_pure ()).issues
  | some memberId => exact issues_api h

theorem issues_forLegs {rule : Leg → Code Unit} {cost : Leg → Nat}
    (hrule : ∀ leg, Issues f (cost leg) (rule leg)) (legs : List Leg) :
    Issues f (legs.map cost).sum (forLegs rule legs) := by
  induction legs with
  | nil => exact (passes_pure ()).issues
  | cons leg legs ih =>
    rw [List.map_cons, List.sum_cons]
    exact (hrule leg).bind fun _ => ih

theorem issues_rulesFor (h : Serverless f) (room : Room) :
    Issues f (ruleCost room) (rulesFor room) := by
  unfold rulesFor ruleCost
  apply (issues_forLegs (issues_supervisorRule h _) _).bind
  intro _
  split
  · exact issues_forLegs (issues_agentRule h) _
  · exact (passes_pure ()).issues

/-- `_rules` throws exactly if one of its commands fails. -/
theorem ends_rules {w : Faulty World} {Q : Unit → Faulty World → Prop} {E : Faulty World → Prop}
    (hQ : true ∉ w.faults.take (ruleCost w.state.room) →
      ∀ w', bare w'.state = bare w.state → Q () w')
    (hE : true ∈ w.faults.take (ruleCost w.state.room) →
      ∀ w', bare w'.state = bare w.state → E w') : Ends rules w Q E := by
  have hissues := issues_rulesFor serverless_bare w.state.room w
  show Ends (rulesFor w.state.room) w Q E
  by_cases h : true ∈ w.faults.take (ruleCost w.state.room)
  · exact (hissues.2 h).mono (fun _ _ h' => h'.elim) fun w' h' => hE h w' h'
  · exact (hissues.1 h).mono (fun _ w' h' => hQ h w' h'.1) fun _ h' => h'.elim

theorem keeps_rules (h : Serverless f) : Keeps f rules := by
  intro w
  exact (issues_rulesFor h w.state.room).keeps w

end Server

/-! ## The outline -/

/-- Who is in the room and what they may do, whether the map holds it and what is saved. -/
structure Outline where
  worker : Nat
  held : Held
  saved : Option Snapshot
  mode : Mode
  agentPrivate : Bool
  agents : List Nat
  supervisors : List Nat

def outline (w : World) : Outline where
  worker := w.worker
  held := w.held
  saved := w.saved
  mode := w.room.mode
  agentPrivate := w.room.agentPrivate
  agents := w.room.agents.ids
  supervisors := w.room.supervisors.ids

theorem serverless_outline : Serverless outline := fun _ _ => rfl

theorem outline_of_bare {w w' : World} (h : bare w' = bare w) : outline w' = outline w := by
  have hworker : w'.worker = w.worker := congrArg (·.1) h
  have hroom : w'.room = w.room := congrArg (·.2.1) h
  have hheld : w'.held = w.held := congrArg (·.2.2.1) h
  have hsaved : w'.saved = w.saved := congrArg (·.2.2.2) h
  unfold outline
  rw [hworker, hroom, hheld, hsaved]

theorem outline_setAgent {w : World} {agentId : Nat} {leg : Leg}
    (h : w.room.agents.get agentId = some leg) (leg' : Leg) :
    outline { w with room := { w.room with agents := w.room.agents.set agentId leg' } } =
      outline w := by
  unfold outline
  rw [Legs.ids_set_of_get h]

/-- A change of the room that its outline does not show. -/
def Hidden (change : Room → Room) : Prop := ∀ w : World, outline { w with room := change w.room } = outline w

theorem keeps_modify {change : Room → Room} (h : Hidden change) : Keeps outline (modify change) :=
  keeps_change h

section Outline

theorem passes_key (kind : Kind) : Passes outline 0 (key kind) := by
  have hcount : Passes outline 0 (modify fun room => { room with legSeq := room.legSeq + 1 }) :=
    passes_change fun _ => rfl
  have hread : Passes outline (0 + (0 + 0)) (do
      let room ← theRoom
      let worker ← Fallible.read (·.worker)
      return (⟨worker, kind, room.legSeq⟩ : RtpKey)) :=
    passes_read.bind fun _ => passes_read.bind fun _ => passes_pure _
  exact hcount.bind fun _ => hread

/-- Making a leg takes three commands where the other side offered. -/
theorem issues_legFromOffer (kind : Kind) (transport : Transport) :
    Issues outline 3 (legFromOffer kind transport) := by
  have hmade (rtpKey : RtpKey) : Issues outline 3 (onFailure (do
      send (·.offerRtp rtpKey)
      let ep ← make (·.createEndpoint)
      api
      return ({ kind, ep, rtpKey, transport, answered := true } : Leg)) (deleteRtp rtpKey)) :=
    Issues.onFailure ((issues_send serverless_outline _).bind fun _ =>
      (issues_make serverless_outline _).bind fun _ =>
        (issues_api serverless_outline).bind fun _ => (passes_pure _).issues)
      (passes_deleteRtp serverless_outline rtpKey).keeps
  exact (passes_key kind).issues.bind fun rtpKey => hmade rtpKey

theorem keeps_legOffer (kind : Kind) (transport : Transport) :
    Keeps outline (legOffer kind transport) :=
  (passes_key kind).keeps.bind fun rtpKey =>
    Keeps.onFailure ((issues_make serverless_outline _).keeps.bind fun _ =>
      (issues_send serverless_outline _).keeps.bind fun _ => keeps_pure _)
      (passes_deleteRtp serverless_outline rtpKey).keeps

theorem keeps_armCustomer (leg : Leg) (made : Bool) : Keeps outline (armCustomer leg made) :=
  (keeps_modify fun _ => rfl).bind fun _ =>
    keeps_ite (passes_caught_send serverless_outline _).keeps (keeps_pure ())

theorem keeps_watchCustomer : Keeps outline watchCustomer :=
  keeps_modify fun w => by cases h : w.room.monitor <;> simp [outline]

theorem keeps_soundTo (cust : Nat) (on : Bool) (sound : Sound) :
    Keeps outline (soundTo cust on sound) :=
  keeps_ite (issues_send serverless_outline _).keeps (issues_send serverless_outline _).keeps

theorem keeps_tone (on : Bool) : Keeps outline (tone on) := by
  apply keeps_read.bind
  intro room
  split
  · exact keeps_pure ()
  · exact keeps_ite (keeps_pure ()) ((keeps_modify fun _ => rfl).bind fun _ => keeps_soundTo _ _ _)

theorem keeps_hold (on : Bool) (audio : Option String) : Keeps outline (hold on audio) := by
  apply keeps_read.bind
  intro room
  split
  · exact keeps_pure ()
  · exact keeps_ite (keeps_pure ()) ((keeps_modify fun _ => rfl).bind fun _ => keeps_soundTo _ _ _)

theorem keeps_breakCustomer : Keeps outline breakCustomer :=
  keeps_read.bind fun _ =>
    keeps_ite (passes_caught_send serverless_outline _).keeps (keeps_pure ())

theorem keeps_joinCustomer : Keeps outline joinCustomer := by
  apply keeps_read.bind
  intro room
  split
  · exact keeps_pure ()
  · exact (keeps_join serverless_outline _).bind fun _ => keeps_modify fun _ => rfl

theorem keeps_enterIfOut : Keeps outline enterIfOut :=
  keeps_read.bind fun _ =>
    keeps_ite (keeps_breakCustomer.bind fun _ => keeps_joinCustomer) (keeps_pure ())

/-- The agents' legs join where they stand. -/
theorem keeps_joinAgents (ids : List Nat) : Keeps outline (joinAgents ids) := by
  induction ids with
  | nil => exact keeps_pure ()
  | cons agentId ids ih =>
    intro w
    rw [joinAgents, theRoom, ends_bind, ends_read]
    split
    · exact ih w
    · rename_i leg hget
      rw [ends_bind]
      refine (keeps_join serverless_bare leg w).mono (fun joined w' h => ?_) fun w' h => outline_of_bare h
      rw [ends_bind]
      -- The leg is still there to be put back.
      have hput := outline_setAgent (h ▸ hget : (bare w'.state).2.1.agents.get agentId = some leg) joined
      have houtline := hput.trans (outline_of_bare h)
      exact (ih _).mono (fun _ _ h' => h'.trans houtline) fun _ h' => h'.trans houtline

/-! ### Operations that stay within the outline -/

theorem keeps_answerCustomer (transport : Transport) : Keeps outline (answerCustomer transport) :=
  keeps_read.bind fun _ => (passes_destroyLeg serverless_outline _).keeps.bind fun _ =>
    (issues_legFromOffer _ _).keeps.bind fun _ =>
      (keeps_armCustomer _ _).bind fun _ => keeps_watchCustomer

theorem keeps_offerCustomer (transport : Transport) : Keeps outline (offerCustomer transport) :=
  keeps_read.bind fun _ => (passes_destroyLeg serverless_outline _).keeps.bind fun _ =>
    (keeps_legOffer _ _).bind fun _ => keeps_armCustomer _ _

theorem keeps_customerAnswered : Keeps outline customerAnswered := by
  apply keeps_read.bind
  intro room
  split
  · exact keeps_throw
  · exact (issues_applyAnswer serverless_outline _).keeps.bind fun _ =>
      (keeps_modify fun _ => rfl).bind fun _ => keeps_watchCustomer

theorem keeps_offerAgent : Keeps outline offerAgent :=
  keeps_read.bind fun _ => (passes_destroyLeg serverless_outline _).keeps.bind fun _ =>
    (keeps_modify fun _ => rfl).bind fun _ => (keeps_legOffer _ _).bind fun _ =>
      keeps_modify fun _ => rfl

theorem keeps_offerSupervisor (supervisorId : Nat) : Keeps outline (offerSupervisor supervisorId) :=
  keeps_read.bind fun _ => (passes_destroyLeg serverless_outline _).keeps.bind fun _ =>
    (keeps_legOffer _ _).bind fun _ => keeps_modify fun _ => rfl

theorem keeps_bridge (recorded : Option Nat) : Keeps outline (bridge recorded) := by
  apply keeps_read.bind
  intro room
  apply keeps_ite (keeps_pure _)
  exact keeps_enterIfOut.bind fun _ => (keeps_hold _ _).bind fun _ => (keeps_joinAgents _).bind
    fun _ => (keeps_tone _).bind fun _ => (keeps_rules serverless_outline).bind fun _ =>
      (keeps_modify fun _ => rfl).bind fun _ => keeps_pure _

theorem keeps_startHold (audio : Option String) : Keeps outline (startHold audio) := by
  apply keeps_read.bind
  intro room
  apply keeps_ite (keeps_pure _)
  exact keeps_breakCustomer.bind fun _ => keeps_joinCustomer.bind fun _ => keeps_hold _ _

end Outline

/-! ## Legs that leave the room -/

namespace Legs

theorem delete_of_get {legs : Legs} {id : Nat} (h : legs.get id = none) : legs.delete id = legs := by
  apply List.filter_eq_self.mpr
  intro entry hentry
  have hne := List.lookup_eq_none_iff.mp h entry hentry
  simp only [bne_iff_ne, ne_eq] at hne
  simpa using fun heq : entry.1 = id => hne heq.symm

/-- The last entry to go was there. -/
theorem get_of_delete_nil {legs : Legs} {id : Nat} (h : legs ≠ []) (hdelete : legs.delete id = []) :
    (legs.get id).isSome = true := by
  cases hget : legs.get id with
  | some leg => rfl
  | none => exact absurd ((delete_of_get hget).symm.trans hdelete) h

theorem ids_set_ne_nil (legs : Legs) (id : Nat) (leg : Leg) : (legs.set id leg).ids ≠ [] :=
  fun h => set_ne_nil legs id leg (ids_eq_nil.mp h)

/-- The ids' entries go, one after the other. -/
def deleteAll (legs : Legs) (ids : List Nat) : Legs := ids.foldl delete legs

/-- The commands it takes to destroy the legs of these ids. -/
def removeCost (legs : Legs) : List Nat → Nat
  | [] => 0
  | id :: ids => destroyCost (legs.get id) + (legs.delete id).removeCost ids

end Legs

theorem bare_fields {w w' : World} (h : bare w' = bare w) :
    w'.worker = w.worker ∧ w'.room = w.room ∧ w'.held = w.held ∧ w'.saved = w.saved :=
  ⟨congrArg (·.1) h, congrArg (·.2.1) h, congrArg (·.2.2.1) h, congrArg (·.2.2.2) h⟩

/-- An agent's leg goes, if there is one. -/
theorem ends_dropPreviousAgent (agentId : Nat) (w : Faulty World) :
    (dropPreviousAgent agentId).Ends w (fun _ w' =>
      bare w'.state = bare { w.state with room :=
        { w.state.room with agents := w.state.room.agents.delete agentId } } ∧
      w'.faults = w.faults.drop (destroyCost (w.state.room.agents.get agentId))) fun _ => False := by
  rw [dropPreviousAgent, theRoom, ends_bind, ends_read]
  cases hget : w.state.room.agents.get agentId with
  | none =>
    rw [Legs.delete_of_get hget]
    exact ⟨rfl, rfl⟩
  | some previous =>
    dsimp only
    rw [ends_bind]
    exact passes_destroyLeg serverless_bare (some previous) _

theorem ends_dropPreviousSupervisor (supervisorId : Nat) (w : Faulty World) :
    (dropPreviousSupervisor supervisorId).Ends w (fun _ w' =>
      bare w'.state = bare { w.state with room :=
        { w.state.room with supervisors := w.state.room.supervisors.delete supervisorId } } ∧
      w'.faults = w.faults.drop (destroyCost (w.state.room.supervisors.get supervisorId)))
      fun _ => False := by
  rw [dropPreviousSupervisor, theRoom, ends_bind, ends_read]
  cases hget : w.state.room.supervisors.get supervisorId with
  | none =>
    rw [Legs.delete_of_get hget]
    exact ⟨rfl, rfl⟩
  | some previous =>
    dsimp only
    rw [ends_bind]
    exact passes_destroyLeg serverless_bare (some previous) _

theorem ends_removeAgents (ids : List Nat) (w : Faulty World) :
    (removeAgents ids).Ends w (fun _ w' =>
      bare w'.state = bare { w.state with room :=
        { w.state.room with agents := w.state.room.agents.deleteAll ids } } ∧
      w'.faults = w.faults.drop (w.state.room.agents.removeCost ids)) fun _ => False := by
  induction ids generalizing w with
  | nil => exact ⟨rfl, rfl⟩
  | cons agentId ids ih =>
    rw [removeAgents, ends_bind]
    refine (ends_dropPreviousAgent agentId w).mono (fun _ w₁ h₁ => ?_) fun _ h => h
    obtain ⟨hworker, hroom, hheld, hsaved⟩ := bare_fields h₁.1
    refine (ih w₁).mono (fun _ w₂ h₂ => ⟨?_, ?_⟩) fun _ h => h
    · rw [h₂.1]
      unfold bare
      dsimp only
      rw [hworker, hroom, hheld, hsaved]
      rfl
    · rw [h₂.2, h₁.2, List.drop_drop, hroom]
      rfl

theorem ends_removeSupervisors (ids : List Nat) (w : Faulty World) :
    (removeSupervisors ids).Ends w (fun _ w' =>
      bare w'.state = bare { w.state with room :=
        { w.state.room with supervisors := w.state.room.supervisors.deleteAll ids } } ∧
      w'.faults = w.faults.drop (w.state.room.supervisors.removeCost ids)) fun _ => False := by
  induction ids generalizing w with
  | nil => exact ⟨rfl, rfl⟩
  | cons supervisorId ids ih =>
    rw [removeSupervisors, ends_bind]
    refine (ends_dropPreviousSupervisor supervisorId w).mono (fun _ w₁ h₁ => ?_) fun _ h => h
    obtain ⟨hworker, hroom, hheld, hsaved⟩ := bare_fields h₁.1
    refine (ih w₁).mono (fun _ w₂ h₂ => ⟨?_, ?_⟩) fun _ h => h
    · rw [h₂.1]
      unfold bare
      dsimp only
      rw [hworker, hroom, hheld, hsaved]
      rfl
    · rw [h₂.2, h₁.2, List.drop_drop, hroom]
      rfl

/-! ## What is around the room -/

/-- The worker, whether its map holds the room, and what is saved of it. -/
def around (w : World) : Nat × Held × Option Snapshot := (w.worker, w.held, w.saved)

theorem serverless_around : Serverless around := fun _ _ => rfl

/-- What is within the outline is within what is around it. -/
theorem keeps_around {α : Type} {m : Code α} (h : Keeps outline m) : Keeps around m :=
  h.through fun o => (o.worker, o.held, o.saved)

theorem keeps_around_modify (change : Room → Room) : Keeps around (modify change) :=
  keeps_change fun _ => rfl

theorem around_of_bare {w w' : World} {room : Room} (h : bare w' = bare { w with room }) :
    around w' = around w := by
  obtain ⟨hworker, -, hheld, hsaved⟩ := bare_fields h
  unfold around
  rw [hworker, hheld, hsaved]

theorem keeps_removeAgents (ids : List Nat) : Keeps around (removeAgents ids) :=
  fun w => (ends_removeAgents ids w).mono (fun _ _ h => around_of_bare h.1) fun _ h => h.elim

theorem keeps_removeSupervisors (ids : List Nat) : Keeps around (removeSupervisors ids) :=
  fun w => (ends_removeSupervisors ids w).mono (fun _ _ h => around_of_bare h.1) fun _ h => h.elim

theorem keeps_dropPreviousAgent (agentId : Nat) : Keeps around (dropPreviousAgent agentId) :=
  fun w => (ends_dropPreviousAgent agentId w).mono (fun _ _ h => around_of_bare h.1) fun _ h => h.elim

theorem keeps_dropPreviousSupervisor (supervisorId : Nat) :
    Keeps around (dropPreviousSupervisor supervisorId) :=
  fun w => (ends_dropPreviousSupervisor supervisorId w).mono (fun _ _ h => around_of_bare h.1)
    fun _ h => h.elim

theorem keeps_joinSupervisor (supervisorId : Nat) (leg : Leg) :
    Keeps around (joinSupervisor supervisorId leg) :=
  (keeps_around_modify _).bind fun _ => (keeps_join serverless_around leg).bind fun _ =>
    (keeps_around_modify _).bind fun _ => keeps_rules serverless_around

theorem keeps_agentAccepted (agentId : Nat) : Keeps around (agentAccepted agentId) := by
  apply keeps_read.bind
  intro room
  split
  · exact keeps_throw
  · exact (keeps_around_modify _).bind fun _ =>
      (keeps_answeredAgentLeg serverless_around _).bind fun _ => keeps_read.bind fun _ =>
        (passes_destroyLeg serverless_around _).keeps.bind fun _ => keeps_around_modify _

theorem keeps_answerAgent (agentId : Nat) : Keeps around (answerAgent agentId) :=
  (keeps_dropPreviousAgent agentId).bind fun _ =>
    (keeps_around (issues_legFromOffer _ _).keeps).bind fun _ => keeps_around_modify _

theorem keeps_dropAgent (agentId : Option Nat) : Keeps around (dropAgent agentId) :=
  keeps_read.bind fun _ => (keeps_removeAgents _).bind fun _ => keeps_read.bind fun _ =>
    keeps_ite ((keeps_around_modify _).bind fun _ => keeps_around (keeps_tone _)) (keeps_pure ())

theorem keeps_addSupervisor (supervisorId : Nat) : Keeps around (addSupervisor supervisorId) :=
  (keeps_dropPreviousSupervisor supervisorId).bind fun _ =>
    (keeps_around (issues_legFromOffer _ _).keeps).bind fun _ => keeps_joinSupervisor _ _

theorem keeps_supervisorAnswered (supervisorId : Nat) :
    Keeps around (supervisorAnswered supervisorId) := by
  apply keeps_read.bind
  intro room
  split
  · exact keeps_throw
  · exact (keeps_around_modify _).bind fun _ =>
      (issues_applyAnswer serverless_around _).keeps.bind fun _ =>
        (keeps_dropPreviousSupervisor supervisorId).bind fun _ => keeps_joinSupervisor _ _

theorem keeps_setSupervisorMode (mode : Mode) : Keeps around (setSupervisorMode mode) :=
  keeps_read.bind fun _ => (keeps_around_modify _).bind fun _ =>
    (keeps_rules serverless_around).bind fun _ => keeps_pure _

theorem keeps_setAgentPrivate (active : Bool) : Keeps around (setAgentPrivate active) :=
  keeps_read.bind fun _ => (keeps_around_modify _).bind fun _ =>
    (keeps_rules serverless_around).bind fun _ => keeps_read.bind fun _ => keeps_pure _

theorem keeps_removeSupervisor (supervisorId : Option Nat) :
    Keeps around (removeSupervisor supervisorId) :=
  keeps_read.bind fun _ => (keeps_removeSupervisors _).bind fun _ => keeps_read.bind fun _ =>
    (keeps_around_modify _).bind fun _ => (keeps_rules serverless_around).bind fun _ =>
      keeps_read.bind fun _ => keeps_pure _

/-! ### The end -/

/-- A room still in the map leaves it, and then its legs go. -/
theorem ends_close {w : Faulty World} {Q : Unit → Faulty World → Prop} {E : Faulty World → Prop} :
    close.Ends w Q E ↔ if w.state.held = .nothing then Q () w else
      (destroyLegs w.state.room.legs).Ends ⟨{ w.state with held := .nothing }, w.faults⟩
        (fun _ w' => Q () ⟨{ w'.state with saved := none }, w'.faults⟩) E := by
  show Ends (if w.state.held = .nothing then pure () else do
    Fallible.change fun w => { w with held := .nothing }
    destroyLegs (← theRoom).legs
    Fallible.change fun w => { w with saved := none } : Code Unit) w Q E ↔ _
  split
  · rfl
  · rw [ends_bind, ends_change, ends_bind, theRoom, ends_read, ends_bind]
    rfl

theorem ends_close_held {w : Faulty World} {Q : Unit → Faulty World → Prop}
    {E : Faulty World → Prop} (h : w.state.held ≠ .nothing) :
    close.Ends w Q E ↔
      (destroyLegs w.state.room.legs).Ends ⟨{ w.state with held := .nothing }, w.faults⟩
        (fun _ w' => Q () ⟨{ w'.state with saved := none }, w'.faults⟩) E := by
  rw [ends_close, if_neg h]

/-! ### Another worker -/

theorem issues_adoptLeg {τ : Type} {f : World → τ} (h : Serverless f) (leg : Leg) :
    Issues f 1 (adoptLeg leg) :=
  (issues_api h).bind fun _ => (passes_pure leg).issues

theorem passes_armCustomer (leg : Leg) : Passes outline 0 (armCustomer leg false) := by
  have harm : Passes outline 0 (modify fun room =>
      { room with customer := some { leg with listening := false } }) := passes_change fun _ => rfl
  exact harm.bind fun _ => passes_pure ()

theorem issues_adoptCustomer (saved : Option Leg) :
    Issues outline saved.toList.length (adoptCustomer saved) := by
  cases saved with
  | none => exact (passes_pure ()).issues
  | some leg =>
    have hput (adopted : Leg) : Passes outline 0 (modify fun room =>
        { room with customer := some { adopted with listening := leg.listening } }) :=
      passes_change fun _ => rfl
    exact (issues_adoptLeg serverless_outline leg).bind fun adopted =>
      ((passes_armCustomer adopted).bind fun _ => hput adopted).issues

theorem issues_adoptPendingAgent (saved : Option Leg) :
    Issues outline saved.toList.length (adoptPendingAgent saved) := by
  have hput (pendingAgent : Option Leg) :
      Passes outline 0 (modify fun room => { room with pendingAgent }) := passes_change fun _ => rfl
  cases saved with
  | none => exact (hput none).issues
  | some leg =>
    exact (issues_adoptLeg serverless_outline leg).bind fun adopted => (hput (some adopted)).issues

theorem keeps_adoptAgents {τ : Type} {f : World → τ} (h : Serverless f)
    (hset : ∀ w agents, f { w with room := { w.room with agents } } = f w) (saved : List Leg) :
    Keeps f (adoptAgents saved) := by
  induction saved with
  | nil => exact keeps_pure ()
  | cons leg rest ih =>
    exact (issues_adoptLeg h leg).keeps.bind fun _ =>
      (keeps_change fun w => hset w _).bind fun _ => ih

theorem keeps_adoptSupervisors {τ : Type} {f : World → τ} (h : Serverless f)
    (hset : ∀ w supervisors, f { w with room := { w.room with supervisors } } = f w)
    (saved : Legs) : Keeps f (adoptSupervisors saved) := by
  induction saved with
  | nil => exact keeps_pure ()
  | cons entry rest ih =>
    exact (issues_adoptLeg h entry.2).keeps.bind fun _ =>
      (keeps_change fun w => hset w _).bind fun _ => ih

/-- Only the maps of agents and supervisors show in the outline. -/
theorem keeps_adoptLegs {τ : Type} {f : Outline → τ} (snap : Snapshot)
    (hagents : ∀ o agents, f { o with agents } = f o)
    (hsupervisors : ∀ o supervisors, f { o with supervisors } = f o) :
    Keeps (fun w => f (outline w)) (adoptLegs snap) :=
  ((issues_adoptCustomer _).keeps.through f).bind fun _ =>
    ((issues_adoptPendingAgent _).keeps.through f).bind fun _ =>
      (keeps_adoptAgents (fun _ _ => rfl) (fun w _ => hagents (outline w) _) _).bind fun _ =>
        (keeps_adoptSupervisors (fun _ _ => rfl) (fun w _ => hsupervisors (outline w) _) _).bind
          fun _ => ((keeps_modify fun _ => rfl).through f).bind fun _ =>
            keeps_watchCustomer.through f

theorem keeps_around_adoptLegs (snap : Snapshot) : Keeps around (adoptLegs snap) :=
  keeps_adoptLegs (f := fun o => (o.worker, o.held, o.saved)) snap (fun _ _ => rfl) fun _ _ => rfl

/-- A room in which somebody is. -/
def Occupied (room : Room) : Prop :=
  room.customer.isSome = true ∨ room.agents.isEmpty = false ∨ room.supervisors.isEmpty = false

instance (room : Room) : Decidable (Occupied room) := inferInstanceAs (Decidable (_ ∨ _ ∨ _))

theorem not_occupied {room : Room} :
    ¬ Occupied room ↔ room.customer = none ∧ room.agents = [] ∧ room.supervisors = [] := by
  unfold Occupied
  simp only [not_or, Bool.not_eq_true, Option.isSome_eq_false_iff, Option.isNone_iff_eq_none,
    Bool.not_eq_false, List.isEmpty_iff]

/-- The room as the snapshot has it, before its legs are there. -/
def tookOver (room : Room) (snap : Snapshot) : Room :=
  { room with
    name := snap.name
    legSeq := snap.legSeq
    mode := snap.mode
    agentPrivate := snap.agentPrivate
    bridged := snap.bridged
    toneOn := snap.toneOn
    holdOn := snap.holdOn }

section Adopt

variable {w : Faulty World} {Q : Bool → Faulty World → Prop} {E : Faulty World → Prop}

theorem ends_adopt_occupied (h : Occupied w.state.room) : adopt.Ends w Q E ↔ Q true w := by
  show Ends (if Occupied w.state.room then pure true else _) w Q E ↔ _
  rw [if_pos h]
  rfl

theorem ends_adopt_unsaved (h : ¬ Occupied w.state.room) (hsaved : w.state.saved = none) :
    adopt.Ends w Q E ↔ Q false ⟨{ w.state with held := .nothing }, w.faults⟩ := by
  show Ends (if Occupied w.state.room then pure true else _) w Q E ↔ _
  rw [if_neg h, ends_bind, ends_read, hsaved]
  rfl

theorem ends_adopt_saved {snap : Snapshot} (h : ¬ Occupied w.state.room)
    (hsaved : w.state.saved = some snap) :
    adopt.Ends w Q E ↔ (adoptLegs snap).Ends
      ⟨{ w.state with room := tookOver w.state.room snap }, w.faults⟩ (fun _ => Q true) E := by
  show Ends (if Occupied w.state.room then pure true else _) w Q E ↔ _
  rw [if_neg h, ends_bind, ends_read, hsaved]
  show Ends (do modify fun room => tookOver room snap; adoptLegs snap; return true) w Q E ↔ _
  rw [ends_bind, modify, ends_change, ends_bind]
  rfl

end Adopt

/-! ### Every operation -/

/-- The operations that are neither the room's end nor its rescue. -/
def Operation.Ordinary : Operation → Prop
  | .close | .adopt => False
  | _ => True

/-- An ordinary operation stays in its room. -/
theorem Operation.Ordinary.keeps {op : Operation} (h : op.Ordinary) : Keeps around op.code := by
  have hanswered {m : Code Unit} (hm : Keeps around m) :
      Keeps around (do m; return false : Code Bool) := hm.bind fun _ => keeps_pure false
  cases op with
  | answerCustomer transport => exact hanswered (keeps_around (keeps_answerCustomer transport))
  | offerCustomer transport => exact hanswered (keeps_around (keeps_offerCustomer transport))
  | customerAnswered => exact hanswered (keeps_around keeps_customerAnswered)
  | offerAgent => exact hanswered (keeps_around keeps_offerAgent)
  | agentAccepted agentId => exact hanswered (keeps_agentAccepted agentId)
  | answerAgent agentId => exact hanswered (keeps_answerAgent agentId)
  | dropAgent agentId => exact hanswered (keeps_dropAgent agentId)
  | bridge recorded => exact keeps_around (keeps_bridge recorded)
  | addSupervisor supervisorId => exact hanswered (keeps_addSupervisor supervisorId)
  | offerSupervisor supervisorId => exact hanswered (keeps_around (keeps_offerSupervisor supervisorId))
  | supervisorAnswered supervisorId => exact hanswered (keeps_supervisorAnswered supervisorId)
  | setSupervisorMode mode => exact keeps_setSupervisorMode mode
  | setAgentPrivate active => exact keeps_setAgentPrivate active
  | removeSupervisor supervisorId => exact keeps_removeSupervisor supervisorId
  | startHold audio => exact hanswered (keeps_around (keeps_startHold audio))
  | stopHold => exact hanswered (keeps_around (keeps_hold false none))
  | close => exact h.elim
  | adopt => exact h.elim

/-- No operation saves anything by itself. -/
theorem Operation.ends_saved (op : Operation) (w : Faulty World) :
    op.code.Ends w (fun _ w' => w'.state.saved = w.state.saved ∨ w'.state.saved = none)
      fun w' => w'.state.saved = w.state.saved ∨ w'.state.saved = none := by
  have hkept {α : Type} {m : Code α} {w₁ : Faulty World} (hm : Keeps around m)
      (h : w₁.state.saved = w.state.saved) :
      m.Ends w₁ (fun _ w' => w'.state.saved = w.state.saved ∨ w'.state.saved = none)
        fun w' => w'.state.saved = w.state.saved ∨ w'.state.saved = none := by
    have hsaved {w' : World} (h' : around w' = around w₁.state) : w'.saved = w.state.saved :=
      (congrArg (·.2.2) h').trans h
    exact (hm w₁).mono (fun _ _ h' => .inl (hsaved h')) fun _ h' => .inl (hsaved h')
  by_cases hop : op.Ordinary
  · exact hkept hop.keeps rfl
  · cases op with
    | close =>
      show Ends (do RoomMedia.close; return false) w _ _
      rw [ends_bind, ends_close]
      split
      · exact .inl rfl
      · refine (keeps_destroyLegs serverless_around _ _).mono (fun _ w' _ => .inr rfl) fun w' h => ?_
        exact .inl (congrArg (·.2.2) h)
    | adopt =>
      show Ends RoomMedia.adopt w _ _
      by_cases hroom : Occupied w.state.room
      · exact (ends_adopt_occupied hroom).mpr (.inl rfl)
      · cases hsaved : w.state.saved with
        | none => exact (ends_adopt_unsaved hroom hsaved).mpr (.inr hsaved)
        | some snap =>
          rw [ends_adopt_saved hroom hsaved, ← hsaved]
          exact hkept (keeps_around_adoptLegs snap) rfl
    | _ => exact absurd trivial hop

namespace Station

/-- What holds of each end of an operation's code holds of the operation. -/
theorem perform_elim {s : Station} {op : Operation} {faults : List Bool}
    {P : Station × Option Bool → Prop} {Q : Bool → Faulty World → Prop} {E : Faulty World → Prop}
    (hnone : ∀ answer, s.room = none → op.withoutRoom = some answer → P (s, answer))
    (hends : op.code.Ends ⟨s.world, faults⟩ Q E)
    (hQ : ∀ answer w', Q answer w' → P (after w'.state, some answer))
    (hE : ∀ w', E w' → P (after w'.state, none)) : P (s.perform op faults) := by
  unfold perform
  split
  · rename_i answer hanswer
    cases hroom : s.room with
    | some room =>
      rw [hroom] at hanswer
      cases hanswer
    | none =>
      rw [hroom] at hanswer
      exact hnone answer hroom hanswer
  · unfold Ends at hends
    split
    · rename_i answer w' hend
      rw [hend] at hends
      exact hQ _ _ hends
    · rename_i e w' hend
      rw [hend] at hends
      exact hE _ hends

end Station

end Callio.RoomMedia
