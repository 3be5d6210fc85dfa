import Callio.Conduct.Ending
import Callio.Core.Timers

/-! What taking an offer back does, for any protocol, and the queue's timers. -/

namespace Callio

open Concurrency Code

variable {P : Protocol Stmt.Res} {Q : P.Phase → Prop}

/-- Statements that take an offer, or a call's place in its queue, away. -/
@[simp] def Stmt.Withdrawing : Stmt → Prop
  | query .findExpiredWaits => True
  | updateCall _ (.withdrawOffer _ _) | updateCall _ (.overflowToQueue _ _ _) => True
  | updateCall _ (.returnHandoverToQueue _ _) | updateCall _ (.expireHandover _ _) => True
  | updateAgent _ (.releaseFromCall _) => True
  | record (.recordDeclined _ _) | record (.recordMissed _ _) => True
  | emit (.offerWithdrawn _ _) => True
  | _ => False

/-- Statements that take an offer back for another reason than its age. -/
@[simp] def Stmt.TakingBack : Stmt → Prop
  | updateCall _ (.withdrawOffer _ expiredBefore) => expiredBefore = none
  | updateCall _ (.overflowToQueue _ _ _) => True
  | updateCall _ (.returnHandoverToQueue _ _) | updateCall _ (.expireHandover _ _) => True
  | updateAgent _ (.releaseFromCall _) => True
  | record (.recordDeclined _ _) | record (.recordMissed _ _) => True
  | emit (.offerWithdrawn _ _) => True
  | _ => False

theorem Stmt.TakingBack.withdrawing {s : Stmt} (h : s.TakingBack) : s.Withdrawing := by
  cases s with
  | updateCall c u => cases u <;> trivial
  | updateAgent a u => cases u <;> trivial
  | record op => cases op <;> trivial
  | emit e => cases e <;> trivial
  | _ => cases h

/-- Statements that pass a withdrawn offer on. -/
@[simp] def Stmt.PassingOn : Stmt → Prop
  | updateAgent _ (.releaseFromCall _) => True
  | record (.recordDeclined _ _) | record (.recordMissed _ _) => True
  | emit (.offerWithdrawn _ _) => True
  | _ => False

theorem Stmt.PassingOn.takingBack {s : Stmt} (h : s.PassingOn) : s.TakingBack := by
  cases s with
  | updateAgent a u => cases u <;> trivial
  | record op => cases op <;> trivial
  | emit e => cases e <;> trivial
  | _ => cases h

/-- Statements that tell an agent, and free them. -/
@[simp] def Stmt.Freeing : Stmt → Prop
  | updateAgent _ (.releaseFromCall _) | emit (.offerWithdrawn _ _) => True
  | _ => False

theorem Stmt.Freeing.passingOn {s : Stmt} (h : s.Freeing) : s.PassingOn := by
  cases s with
  | updateAgent a u => cases u <;> trivial
  | emit e => cases e <;> trivial
  | _ => cases h

/-- A won withdrawal leads to the phases `Q₁`, a lost one, and a counted miss,
to `Q₂`. -/
theorem passOffer_takes (Q₁ : P.Phase → Prop) {Q₂ : P.Phase → Prop} {call : Call} {agentId : Nat}
    {kind : OfferHistory.Kind} {expiredBefore : Option Nat}
    (hw : ∀ q, Q q → P.allows q (.updateCall call.id (.withdrawOffer agentId expiredBefore)) ∧
      Q₁ (P.next q (.updateCall call.id (.withdrawOffer agentId expiredBefore)) true) ∧
      Q₂ (P.next q (.updateCall call.id (.withdrawOffer agentId expiredBefore)) false))
    (hp : ∀ s : Stmt, s.PassingOn → P.Keeps Q₁ s)
    (hm : kind = .missed → (recordMiss call.id call.tenantId call.queueId agentId).Takes P Q₁ Q₂)
    (hd : kind ≠ .missed → ∀ q, Q₁ q → Q₂ q) (h : Seeks P Q₂) :
    (passOffer call agentId kind expiredBefore).Takes P Q Q₂ := by
  have hrecord : (OfferHistory.record call.id agentId kind).Stays P Q₁ := by
    cases kind with
    | declined => exact hp (.record (.recordDeclined _ _)) trivial
    | missed => exact hp (.record (.recordMissed _ _)) trivial
  have hroute : (routeWaitingCall call.id call.queueId >>= fun _ => pure true).Stays P Q₂ :=
    (h.routeWaitingCall _ _).bind fun _ => Prog.stays_ret _
  have hpass : (OfferHistory.record call.id agentId kind >>= fun _ => do
      emit (.offerWithdrawn call.id [agentId])
      let _ ← releaseAgent agentId call.id
      if kind = .missed then let _ ← recordMiss call.id call.tenantId call.queueId agentId
      routeWaitingCall call.id call.queueId
      return true).Takes P Q₁ Q₂ := by
    refine hrecord.bind fun _ => .bind (hp (.emit (.offerWithdrawn call.id _)) trivial) fun _ => ?_
    refine (releaseAgent_stays (hp (.updateAgent agentId (.releaseFromCall call.id)) trivial)
      (fun h => absurd h (by decide))).bind fun _ => ?_
    exact .ite (fun hk => (hm hk).bind fun _ => hroute)
      fun hk => Prog.Takes.bind (m := .ret ()) (Prog.takes_ret (hd hk) _) fun _ => hroute
  intro q hq
  obtain ⟨hallows, hwon, hlost⟩ := hw q hq
  refine ⟨hallows, fun won => ?_⟩
  cases won with
  | true => exact hpass _ hwon
  | false => exact hlost

theorem passOffer_stays (h : Routes P Q) {kind : OfferHistory.Kind}
    (hc : kind = .missed → ∀ a, P.Keeps Q (.incrementMissed a))
    (hp : ∀ s : Stmt, s.PassingOn → P.Keeps Q s) {call : Call} {agentId : Nat}
    {expiredBefore : Option Nat}
    (hw : P.Keeps Q (.updateCall call.id (.withdrawOffer agentId expiredBefore))) :
    (passOffer call agentId kind expiredBefore).Stays P Q :=
  passOffer_takes _ (fun q hq => ⟨(hw q hq).1, (hw q hq).2 true, (hw q hq).2 false⟩) hp
    (fun hk => h.recordMiss (hc hk) _ _ _ _ _) (fun _ _ hq => hq) h.toSeeks

theorem expireOffer_stays {call : Call}
    (hp : ∀ agentId, call.agentId = some agentId →
      (passOffer call agentId .missed call.offeredAt).Stays P Q) : (expireOffer call).Stays P Q := by
  unfold expireOffer
  split
  · exact Prog.stays_ret _
  · rename_i agentId ha
    exact (hp agentId ha).bind fun _ => Prog.stays_ret _

section overflow

variable (h : Seeks P Q)
include h

theorem waitingIn_stays (call : Call) : (waitingIn call).Stays P Q := by
  unfold waitingIn
  split
  · exact Prog.stays_ret _
  · exact h.read (.findQueue _) trivial

theorem ringingAgents_stays (call : Call) (queue : Option Queue) : (ringingAgents call queue).Stays P Q := by
  cases queue with
  | none => exact Prog.stays_ret _
  | some queue =>
    cases ha : call.agentId with
    | some agentId =>
      simp only [ringingAgents, ha]
      exact Prog.stays_ret _
    | none =>
      simp only [ringingAgents, ha]
      exact .ite (fun _ => h.read (.getMemberIds queue.id) trivial) fun _ => Prog.stays_ret _

theorem callOverflowed_stays (hp : ∀ s : Stmt, s.Freeing → P.Keeps Q s) (call : Call)
    (toQueueId : Nat) : (callOverflowed call toQueueId).Stays P Q := by
  have hroute : (record (.clearMissed call.id) >>= fun _ =>
      routeWaitingCall call.id (some toQueueId)).Stays P Q :=
    .bind (h.looking (.record (.clearMissed call.id)) trivial) fun _ => h.routeWaitingCall _ _
  unfold callOverflowed
  refine (waitingIn_stays h call).bind fun queue => (ringingAgents_stays h call queue).bind fun agents => ?_
  refine .ite (fun _ => .bind (hp (.emit (.offerWithdrawn call.id agents)) trivial) fun _ => ?_)
    fun _ => ?_
  all_goals
    split
    · rename_i agentId _
      exact (releaseAgent_stays (hp (.updateAgent agentId (.releaseFromCall call.id)) trivial)
        (fun h => absurd h (by decide))).bind fun _ => hroute
    · exact hroute

/-- A wait that is over: the call is moved, or ended. -/
theorem waitExpired_takes {Q₂ : P.Phase → Prop} (call : Call) (overflowQueueId : Option Nat)
    (hmove : call.overflowCount < maxOverflows → ∀ queueId, call.queueId = some queueId → ∀ toQueueId,
      (overflowWaiting call queueId toQueueId).Takes P Q Q₂)
    (hend : (CallTerminator.endCall call (timeoutOptions .ringing .whenUnanswered)).Takes P Q Q₂) :
    (waitExpired call overflowQueueId).Takes P Q Q₂ := by
  have hend' := hend.bind fun _ => (Prog.stays_ret () : (Prog.ret () : Code Unit).Stays P Q₂)
  unfold waitExpired overflowTarget
  split
  · rename_i hcan
    simp only [Bool.and_eq_true, decide_eq_true_eq] at hcan
    refine (h.getQueue overflowQueueId).bind fun overflow => ?_
    cases overflow with
    | none => exact hend'
    | some overflow =>
      cases hq : call.queueId with
      | none => exact hend'
      | some queueId => exact .ite (fun _ => hmove hcan.2 queueId hq overflow.id) fun _ => hend'
  · exact hend'

end overflow

section takingBack

variable (h : Seeks P Q) (hw : ∀ s : Stmt, s.TakingBack → P.Keeps Q s)
include h hw

theorem overflowWaiting_stays (call : Call) (queueId toQueueId : Nat) :
    (overflowWaiting call queueId toQueueId).Stays P Q := by
  refine .bind (hw (.updateCall call.id (.overflowToQueue _ _ _)) trivial) fun _ => ?_
  exact .ite (fun _ => callOverflowed_stays h (fun s hs => hw s hs.passingOn.takingBack) call toQueueId)
    fun _ => Prog.stays_ret _

theorem waitExpired_stays (call : Call) (overflowQueueId : Option Nat)
    (hend : (CallTerminator.endCall call (timeoutOptions .ringing .whenUnanswered)).Stays P Q) :
    (waitExpired call overflowQueueId).Stays P Q :=
  waitExpired_takes h call overflowQueueId (fun _ _ _ _ => overflowWaiting_stays h hw _ _ _) hend

end takingBack

section handover

variable (hr : ∀ c a t, P.Keeps Q (.updateCall c (.returnHandoverToQueue a t)))
include hr

theorem returnHandover_stays (call : Call) (agentId offeredAt : Nat)
    (hpass : (passOffer { call with status := .ringing } agentId .missed).Stays P Q) :
    (returnHandover call agentId offeredAt).Stays P Q := by
  refine .bind (hr call.id agentId offeredAt) fun _ => ?_
  exact .ite (fun _ => hpass.bind fun _ => Prog.stays_ret _) fun _ => Prog.stays_ret _

theorem handoverExpired_stays (hx : ∀ c a t, P.Keeps Q (.updateCall c (.expireHandover a t)))
    (call : Call)
    (hpass : ∀ agentId, (passOffer { call with status := .ringing } agentId .missed).Stays P Q)
    (hend : (CallTerminator.endCall call (timeoutOptions .inProgress .terminate)).Stays P Q) :
    (handoverExpired call).Stays P Q := by
  unfold handoverExpired
  split
  · rename_i agentId offeredAt _ _
    refine .ite (fun _ => returnHandover_stays hr call agentId offeredAt (hpass agentId)) fun _ => ?_
    refine .bind (hx call.id agentId offeredAt) fun _ => ?_
    exact .ite (fun _ => hend.bind fun _ => Prog.stays_ret _) fun _ => Prog.stays_ret _
  · exact Prog.stays_ret _

end handover

/-! ## The scans -/

theorem expireWaitsOf_stays {waits : List (Call × Option Nat)}
    (hwait : ∀ wait ∈ waits, (waitExpired wait.1 wait.2).Stays P Q) :
    (expireWaitsOf waits).Stays P Q := by
  induction waits with
  | nil => exact Prog.stays_ret _
  | cons wait rest ih =>
    rw [List.forall_mem_cons] at hwait
    exact hwait.1.bind fun _ => ih hwait.2

theorem expireHandoversOf_stays {calls : List Call}
    (hcall : ∀ call ∈ calls, (handoverExpired call).Stays P Q) :
    (expireHandoversOf calls).Stays P Q := by
  induction calls with
  | nil => exact Prog.stays_ret _
  | cons call rest ih =>
    rw [List.forall_mem_cons] at hcall
    exact hcall.1.bind fun _ => ih hcall.2

theorem expireOffersOf_stays {calls : List Call} (ho : ∀ call ∈ calls, (expireOffer call).Stays P Q) :
    (expireOffersOf calls).Stays P Q := by
  induction calls with
  | nil => exact Prog.stays_ret _
  | cons call rest ih =>
    rw [List.forall_mem_cons] at ho
    exact ho.1.bind fun _ => ih ho.2

/-- A handover nobody answered is passed on as a missed offer is. -/
theorem passHandover_stays (h : Routes P Q) (hc : ∀ a, P.Keeps Q (.incrementMissed a))
    (hw : ∀ s : Stmt, s.TakingBack → P.Keeps Q s) (call : Call) (agentId : Nat) :
    (passOffer { call with status := .ringing } agentId .missed).Stays P Q :=
  passOffer_stays h (fun _ => hc) (fun s hs => hw s hs.takingBack)
    (hw (.updateCall call.id (.withdrawOffer agentId none)) rfl)

theorem queueTimeoutTick_stays (h : Ends P Q) (hc : ∀ a, P.Keeps Q (.incrementMissed a))
    (hw : ∀ s : Stmt, s.Withdrawing → P.Keeps Q s)
    (transferTimeoutSeconds : Nat) : (queueTimeoutTick transferTimeoutSeconds).Stays P Q := by
  have htaking : ∀ s : Stmt, s.TakingBack → P.Keeps Q s := fun s hs => hw s hs.withdrawing
  refine .bind (.bind (h.read _ trivial) fun calls => expireOffersOf_stays fun call _ => ?_) fun _ => ?_
  · exact expireOffer_stays fun agentId _ => passOffer_stays h.toRoutes (fun _ => hc)
      (fun s hs => htaking s hs.takingBack) (hw (.updateCall call.id (.withdrawOffer _ _)) trivial)
  · have hread : (Code.read .findExpiredWaits).Stays P Q := hw (.query .findExpiredWaits) trivial
    refine .bind (hread.bind fun waits => expireWaitsOf_stays fun wait _ => ?_) fun _ => ?_
    · exact waitExpired_stays h.toSeeks htaking wait.1 wait.2 (h.endCall _ _)
    · refine .bind (h.read _ trivial) fun calls => expireHandoversOf_stays fun call _ => ?_
      exact handoverExpired_stays (fun c a t => htaking (.updateCall c (.returnHandoverToQueue a t)) trivial)
        (fun c a t => htaking (.updateCall c (.expireHandover a t)) trivial) call (passHandover_stays h.toRoutes hc htaking call) (h.endCall _ _)

end Callio
