import Callio.Conduct.Ending
import Callio.Core.Ingress

/-! What the provider's reports do, for any protocol. -/

namespace Callio

open Concurrency Code

variable {P : Protocol Stmt.Res} {Q : P.Phase → Prop}

/-- Statements that record what the provider reported about a call. -/
@[simp] def Stmt.Reporting : Stmt → Prop
  | createCall row => row.agentId = none ∧ row.status = .ringing
  | updateCall _ (.fillTimes _ _ _ _) | updateCall _ (.updateTimestamp _ _) => True
  | updateCall _ (.finalizeFromWebhook status _ _) => status = .terminated
  | updateCall _ (.finalizeCallAsFailed _) | updateCall _ .correctNoAnswerIfAnswered => True
  | updateCall _ (.updateTerminatedByIfFailed _) => True
  | updateCall _ (.assignCallToAgentIfUnassigned _) | claimAgentAndAssignCall _ _ true => True
  | claimOwnership _ | wait _ => True
  | record (.setTombstone _ _) | record (.deleteTombstone _) | record (.releaseOwnership _) => True
  | record (.createCustomerConnection _ _) => True
  | emit (.callError _ _) | emit (.callHandled _ _) => True
  | _ => False

/-- Statements that record a report, those of its times and of its end apart. -/
@[simp] def Stmt.Noting : Stmt → Prop
  | createCall row => row.agentId = none ∧ row.status = .ringing
  | updateCall _ (.updateTerminatedByIfFailed _) | updateCall _ (.assignCallToAgentIfUnassigned _) => True
  | claimAgentAndAssignCall _ _ true | claimOwnership _ | wait _ => True
  | record (.setTombstone _ _) | record (.deleteTombstone _) | record (.releaseOwnership _) => True
  | record (.createCustomerConnection _ _) => True
  | emit (.callError _ _) | emit (.callHandled _ _) => True
  | _ => False

theorem Stmt.Noting.reporting {s : Stmt} (h : s.Noting) : s.Reporting := by
  cases s with
  | updateCall c u => cases u <;> first | exact h | cases h
  | record op => cases op <;> exact h
  | emit e => cases e <;> exact h
  | claimAgentAndAssignCall a c anyShift => cases anyShift <;> exact h
  | createCall _ | claimOwnership _ | wait _ => exact h
  | _ => cases h

/-- Statements that answer the customer without an agent. -/
@[simp] def Stmt.AutoAnswering : Stmt → Prop
  | media _ .answerCustomer | updateCall _ .markIvrAutoAccepted => True
  | provider _ action => action = .accept
  | _ => False

/-- Statements that set a status the provider reported of a live call. -/
@[simp] def Stmt.Advancing : Stmt → Prop
  | updateCall _ (.updateStatus status) => status = .ringing ∨ status = .inProgress
  | updateCall _ (.updateState state) => state = some .active
  | _ => False

/-! ## Writes of the finalizers -/

section reports

variable (hp : ∀ s : Stmt, s.Reporting → P.Keeps Q s)
include hp

theorem reportTimestamp_stays (callId : Nat) (field : TimestampField) (value : Nat) :
    (updateTimestamp callId field value).Stays P Q :=
  updateTimestamp_stays (hp (.updateCall callId (.updateTimestamp field value)) trivial)
    (hp (.updateCall callId .correctNoAnswerIfAnswered) trivial)

theorem fillTimes_stays (callId : Nat) (times : ProviderTimes) :
    (fillTimes callId times).Stays P Q :=
  .bind (hp (.updateCall callId (.fillTimes _ _ _ _)) trivial) fun _ => Prog.stays_ret _

theorem finalizeFromWebhook_stays (callId : Nat) (reason : TerminationReason)
    (terminatedBy : TerminatedBy) (times : ProviderTimes) :
    (finalizeFromWebhook callId reason terminatedBy times).Stays P Q := by
  refine (fillTimes_stays hp callId times).bind fun _ => ?_
  refine .bind (hp (.updateCall callId (.finalizeFromWebhook .terminated _ _)) rfl) fun _ => ?_
  exact .bind (hp (.updateCall callId .correctNoAnswerIfAnswered) trivial) fun _ => Prog.stays_ret _

theorem finalizeCallAsFailed_stays (callId : Nat) (terminatedBy : TerminatedBy)
    (times : ProviderTimes) : (finalizeCallAsFailed callId terminatedBy times).Stays P Q :=
  (fillTimes_stays hp callId times).bind fun _ =>
    hp (.updateCall callId (.finalizeCallAsFailed _)) trivial

end reports

/-- The phases of `Q` allow the provider's reports to be recorded. -/
structure Reports (P : Protocol Stmt.Res) (Q : P.Phase → Prop) : Prop where
  keeps : ∀ s : Stmt, s.Noting → P.Keeps Q s
  stamp : ∀ (callId : Nat) (field : TimestampField) (value : Nat), (updateTimestamp callId field value).Stays P Q
  webhook : ∀ (callId : Nat) (reason : TerminationReason) (terminatedBy : TerminatedBy) (times : ProviderTimes),
    (finalizeFromWebhook callId reason terminatedBy times).Stays P Q
  failed : ∀ (callId : Nat) (terminatedBy : TerminatedBy) (times : ProviderTimes),
    (finalizeCallAsFailed callId terminatedBy times).Stays P Q

theorem Reports.of_keeps (hp : ∀ s : Stmt, s.Reporting → P.Keeps Q s) : Reports P Q where
  keeps s hs := hp s hs.reporting
  stamp := reportTimestamp_stays hp
  webhook := finalizeFromWebhook_stays hp
  failed := finalizeCallAsFailed_stays hp

/-! ## Provider status updates, and the provider's end -/

section provider

variable (hr : Routes P Q) (he : ∀ s : Stmt, s.Ending → P.Keeps Q s) (hp : Reports P Q)
include hr he hp

omit hr he in
theorem providerRinging_stays (ha : ∀ s : Stmt, s.Advancing → P.Keeps Q s) (call : Call) (t : Nat) :
    (providerRinging call t).Stays P Q :=
  (hp.stamp _ _ _).bind fun _ =>
    .ite (fun _ => .bind (ha (.updateCall call.id (.updateStatus .ringing)) (.inl rfl))
      fun _ => Prog.stays_ret _) fun _ => Prog.stays_ret _

omit hr he in
theorem providerAccepted_stays (ha : ∀ s : Stmt, s.Advancing → P.Keeps Q s) (call : Call) (t : Nat) :
    (providerAccepted call t).Stays P Q := by
  have hemit : (if call.direction = .outbound then emit (.callHandled call.id call.agentId)
      else pure () : Code Unit).Stays P Q :=
    .ite (fun _ => hp.keeps (.emit (.callHandled _ _)) trivial) fun _ => Prog.stays_ret _
  have hconnect : ∀ _ : Unit, (do
      let _ ← updateTimestamp call.id .answeredAt t
      if !call.ended && call.status ≠ .inProgress then
        let _ ← update call.id (.updateStatus .inProgress)
        let _ ← update call.id (.updateState (some .active))
      if call.direction = .outbound then emit (.callHandled call.id call.agentId) : Code Unit).Stays P Q := by
    intro _
    refine (hp.stamp _ _ _).bind fun _ => .ite (fun _ => ?_) fun _ => hemit
    refine .bind (ha (.updateCall call.id (.updateStatus .inProgress)) (.inr rfl)) fun _ => ?_
    exact .bind (ha (.updateCall call.id (.updateState (some .active))) rfl) fun _ => hemit
  unfold providerAccepted
  exact .ite (fun _ => (hp.stamp _ _ _).bind hconnect) fun _ => hconnect ()

theorem providerRejected_stays (call : Call) (t : Nat) : (providerRejected call t).Stays P Q := by
  refine (hp.stamp _ _ _).bind fun _ => ?_
  refine .bind (he (.updateCall call.id (.terminateCallIfNotTerminated _ _ _ _)) trivial) fun _ => ?_
  exact .ite (fun _ => settle_stays hr.toSeeks (fun s hs => he s hs.ending) _ _ _ _ _ nofun)
    fun _ => Prog.stays_ret _

theorem providerFailed_stays (call : Call) (t : Nat) : (providerFailed call t).Stays P Q := by
  refine (hp.failed _ _ _).bind fun _ => .ite (fun _ => ?_) fun _ => Prog.stays_ret _
  exact .bind (hp.keeps (.emit (.callError _ _)) trivial) fun _ =>
    settle_stays hr.toSeeks (fun s hs => he s hs.ending) _ _ _ _ _ nofun

theorem statusChanged_stays (line : Line) (providerCallId : Nat) (status : ProviderStatus)
    (at_ : Option Nat)
    (ha : status = .ringing ∨ status = .accepted → ∀ s : Stmt, s.Advancing → P.Keeps Q s) :
    (statusChanged line providerCallId status at_).Stays P Q := by
  refine .bind (hr.read _ trivial) fun call => ?_
  cases call with
  | none => exact Prog.stays_ret _
  | some call =>
    refine .ite (fun _ => Prog.stays_ret _) fun _ => .bind (hr.read _ trivial) fun now => ?_
    cases status with
    | ringing => exact providerRinging_stays hp (ha (.inl rfl)) _ _
    | accepted => exact providerAccepted_stays hp (ha (.inr rfl)) _ _
    | rejected => exact providerRejected_stays hr he hp _ _
    | failed => exact providerFailed_stays hr he hp _ _

omit hr he in
theorem reportFailure_stays (call : Call) (e : ProviderEnd) (won : Bool) :
    (reportFailure call e won).Stays P Q := by
  refine .ite (fun _ => Prog.stays_ret _) fun _ => .bind (hp.keeps (.emit (.callError _ _)) trivial) fun _ => ?_
  exact .ite (fun _ => .bind (hp.keeps (.updateCall call.id (.updateTerminatedByIfFailed _)) trivial)
    fun _ => Prog.stays_ret _) fun _ => Prog.stays_ret _

omit he in
theorem stampEnd_stays (call : Call) (e : ProviderEnd) : (stampEnd call e).Stays P Q :=
  .ite (fun _ => .bind (hr.read _ trivial) fun _ => hp.stamp _ _ _)
    fun _ => Prog.stays_ret _

omit he hp in
theorem customerGaveUp_stays (hc : ∀ a, P.Keeps Q (.incrementMissed a)) (call : Call)
    (reason : TerminationReason) : (customerGaveUp call reason).Stays P Q := by
  unfold customerGaveUp
  split
  · exact .ite (fun _ => (hr.recordMiss hc _ _ _ _ _).bind fun _ => Prog.stays_ret _)
      fun _ => Prog.stays_ret _
  · exact Prog.stays_ret _

theorem finishKnownCall_stays (hc : ∀ a, P.Keeps Q (.incrementMissed a)) (call : Call) (e : ProviderEnd) :
    (finishKnownCall call e).Stays P Q := by
  refine .bind (hr.read _ trivial) fun now => ?_
  refine .bind (.ite (fun _ => hp.failed _ _ _)
    fun _ => hp.webhook _ _ _ _) fun won => ?_
  refine (reportFailure_stays hp call e won).bind fun _ => (stampEnd_stays hr hp call e).bind fun _ => ?_
  have hsettle : (CallTerminator.settle call (e.reason call now) e.terminatedBy).Stays P Q :=
    settle_stays hr.toSeeks (fun s hs => he s hs.ending) _ _ _ _ _ nofun
  exact .ite (fun _ => hsettle.bind fun _ => customerGaveUp_stays hr hc _ _) fun _ => Prog.stays_ret _

theorem callEnded_stays (hc : ∀ a, P.Keeps Q (.incrementMissed a)) (line : Line) (e : ProviderEnd) :
    (callEnded line e).Stays P Q := by
  have hfind : ∀ key, (findCallPatiently key).Stays P Q := by
    intro key
    refine .bind (hr.read _ trivial) fun call => ?_
    cases call with
    | some call => exact Prog.stays_ret _
    | none => exact .bind (hp.keeps (.wait 300) trivial) fun _ => hr.read (.findByProviderCallId key) trivial
  have hrelease : P.Keeps Q (.record (.releaseOwnership (line.key e.providerCallId))) :=
    hp.keeps (.record (.releaseOwnership _)) trivial
  refine (hfind _).bind fun call => ?_
  cases call with
  | none => exact .bind (hp.keeps (.record (.setTombstone _ _)) trivial) fun _ => hrelease
  | some call =>
    exact .ite (fun _ => (finishKnownCall_stays hr he hp hc call e).bind fun _ => hrelease) fun _ => hrelease

/-! ## Inbound call offered -/

omit hp in
theorem settleById_stays (callId : Nat) (reason : TerminationReason) (terminatedBy : TerminatedBy) :
    (CallTerminator.settleById callId reason terminatedBy).Stays P Q := by
  refine .bind (hr.read _ trivial) fun call => ?_
  cases call with
  | none => exact Prog.stays_ret _
  | some call => exact settle_stays hr.toSeeks (fun s hs => he s hs.ending) call _ _ _ _ nofun

theorem handleMissedBeforeOffer_stays (key : ProviderKey) (base : CallRow) (ringingAt : Nat)
    (tombstone : Tombstone) (hc : P.Keeps Q (.createCall base)) :
    (handleMissedBeforeOffer key base ringingAt tombstone).Stays P Q := by
  refine .bind hc fun callId => ?_
  cases callId with
  | none => exact Prog.stays_ret _
  | some callId =>
    have hrest : (record (.deleteTombstone key) >>= fun _ => CallTerminator.settleById callId
        (if tombstone.failed then .providerError else .cancelled)
        (if tombstone.failed then .provider else .customer)).Stays P Q :=
      .bind (hp.keeps (.record (.deleteTombstone key)) trivial) fun _ => settleById_stays hr he _ _ _
    exact .ite (fun _ => (hp.failed _ _ _).bind fun _ => hrest)
      fun _ => (hp.webhook _ _ _ _).bind fun _ => hrest

omit hr he in
theorem recordDuplicate_stays (base : CallRow) (ringingAt : Nat) (hc : P.Keeps Q (.createCall base)) :
    (recordDuplicate base ringingAt).Stays P Q := by
  refine .bind hc fun callId => ?_
  cases callId with
  | none => exact Prog.stays_ret _
  | some callId => exact (hp.webhook _ _ _ _).bind fun _ => Prog.stays_ret _

end provider

/-- The phases of `Q₀` allow an arriving call to be claimed and offered, and are
among those of `Q`. -/
structure Arrives (P : Protocol Stmt.Res) (Q₀ Q : P.Phase → Prop) : Prop extends Claims P Q₀ where
  le : ∀ q, Q₀ q → Q q
  reports : Reports P Q₀
  offering : ∀ s : Stmt, s.Offering → P.Keeps Q₀ s

theorem claimOnArrival_stays {callId : Nat} (h : Claims P Q)
    (ho : ∀ ownerId, P.Keeps Q (.claimAgentAndAssignCall ownerId callId true)) (route : Route)
    (ownerReachable : Bool) : (claimOnArrival route callId ownerReachable).Stays P Q := by
  cases route with
  | queue queue => exact (h.claimForNewCall queue callId).bind fun _ => Prog.stays_ret _
  | owner ownerId =>
    refine .ite (fun _ => Prog.stays_ret _) fun _ => .bind (ho ownerId) fun _ => ?_
    exact .ite (fun _ => Prog.stays_ret _) fun _ => Prog.stays_ret _
  | _ => exact Prog.stays_ret _

theorem ivrAutoAccept_stays {callId : Nat} (h : Looks P Q) (hm : P.Keeps Q (.media callId .answerCustomer))
    (hp : P.Keeps Q (.provider callId .accept)) (ha : P.Keeps Q (.updateCall callId .markIvrAutoAccepted))
    (hs : ∀ now, (updateTimestamp callId .answeredAt now).Stays P Q) (providerAccepts : Bool) :
    (ivrAutoAccept callId providerAccepts).Stays P Q := by
  refine .bind (h.read .now trivial) fun now => .bind hm fun _ => .bind hp fun _ => ?_
  exact .ite (fun _ => .bind ha fun _ => hs now) fun _ => Prog.stays_ret _

/-- An IVR flow is only routed to when the line named one. -/
theorem route_takes {Q' : P.Phase → Prop} {β : Type} {f : Route → Code β} (h : Looks P Q) (line : Line)
    (ivrFlowId : Option Nat)
    (hf : ∀ route, (∀ flowId, route = .ivr flowId → ivrFlowId.isSome) → (f route).Takes P Q Q') :
    (InboundRouter.route line ivrFlowId >>= f).Takes P Q Q' := by
  unfold InboundRouter.route
  cases line.ownerAgentId with
  | some ownerId =>
    simp only [bind_assoc]
    refine .bind (h.read _ trivial) fun owner => ?_
    cases owner with
    | some owner => exact hf (.owner owner.id) nofun
    | none => exact hf .nowhere nofun
  | none =>
    simp only [bind_assoc]
    refine (h.getQueue _).bind fun queue => ?_
    cases ivrFlowId with
    | some flowId => exact hf (.ivr flowId) fun _ _ => rfl
    | none =>
      cases queue with
      | some queue => exact hf (.queue queue) nofun
      | none => exact hf .nowhere nofun

theorem offerOnArrival_takes {Q₀ : P.Phase → Prop} (hr : Routes P Q) (hl : Looks P Q₀) (hle : ∀ q, Q₀ q → Q q)
    (ho : ∀ s : Stmt, s.Offering → P.Keeps Q₀ s) (callId tenantId : Nat) (route : Route) (assigned : Option Nat) :
    (offerOnArrival callId tenantId route assigned).Takes P Q₀ Q := by
  have hemit : ∀ assigned ids sdp, (emit (.callIncoming callId assigned ids sdp)).Takes P Q₀ Q :=
    fun assigned ids sdp => Prog.Takes.mono (Prog.stays_cmd (ho (.emit (.callIncoming _ _ _ _)) trivial)) hle
  refine (MediaLegs.offerAgent_stays (fun s hs => ho s hs.offering) callId).bind fun sdp => ?_
  cases assigned with
  | some agentId => exact hemit (some agentId) [] (some sdp)
  | none =>
    cases route with
    | queue queue =>
      refine .ite (fun _ => (hl.ringAllTargets queue).bind fun _ => hemit none _ (some sdp)) fun _ => ?_
      exact (hr.assignOldestUnassignedCall tenantId).of_le hle
    | _ => exact (hr.assignOldestUnassignedCall tenantId).of_le hle

section arrival

variable {Q₀ : P.Phase → Prop} (hr : Routes P Q) (he : ∀ s : Stmt, s.Ending → P.Keeps Q s)
  (h₀ : Arrives P Q₀ Q)
include hr he h₀

theorem lineMissed_takes (callId ownerId : Nat) (why : LineMiss) :
    (lineMissed callId ownerId why).Takes P Q₀ Q :=
  .bind (h₀.reports.keeps (.updateCall callId (.assignCallToAgentIfUnassigned ownerId)) trivial) fun _ =>
    .of_le (((Ends.of_keeps hr he).endById callId _).bind fun _ => Prog.stays_ret _) h₀.le

theorem handleRoutedCall_takes (line : Line) (offer : InboundOffer) (outcome : InboundOutcome) (route : Route)
    (callId ringingAt : Nat)
    (ha : ∀ flowId, route = .ivr flowId → ∀ s : Stmt, s.AutoAnswering → P.Keeps Q₀ s) :
    (handleRoutedCall line offer outcome route callId ringingAt).Takes P Q₀ Q := by
  have hend : ∀ opts, (CallTerminator.endById callId opts >>= fun _ => pure ()).Takes P Q₀ Q :=
    fun opts => .of_le (((Ends.of_keeps hr he).endById callId opts).bind fun _ => Prog.stays_ret _) h₀.le
  have hoffer : ∀ route assigned, (offerOnArrival callId line.tenantId route assigned).Takes P Q₀ Q :=
    offerOnArrival_takes hr h₀.toLooks h₀.le h₀.offering callId line.tenantId
  have howner : ∀ ownerId, P.Keeps Q₀ (.claimAgentAndAssignCall ownerId callId true) := fun ownerId =>
    h₀.reports.keeps (.claimAgentAndAssignCall ownerId callId true) trivial
  refine (claimOnArrival_stays h₀.toClaims howner route _).bind fun ⟨assigned, miss⟩ => ?_
  refine .bind (h₀.reports.keeps (.record (.createCustomerConnection _ _)) trivial) fun _ => ?_
  refine .ite (fun _ => hend _) fun _ => .bind (h₀.read _ trivial) fun tombstone => .ite (fun _ => ?_) fun _ => ?_
  · refine (h₀.reports.webhook _ _ _ _).bind fun _ => ?_
    refine .bind (h₀.reports.keeps (.record (.deleteTombstone _)) trivial) fun _ => ?_
    exact .of_le ((settleById_stays hr he _ _ _).bind fun _ => Prog.stays_ret _) h₀.le
  · cases route with
    | nowhere => exact hend _
    | owner ownerId =>
      cases miss with
      | some why => exact lineMissed_takes hr he h₀ _ _ _
      | none => exact hoffer _ _
    | ivr flowId =>
      have haccept : (ivrAutoAccept callId outcome.providerAccepts).Stays P Q₀ :=
        ivrAutoAccept_stays h₀.toLooks (ha flowId rfl (.media callId .answerCustomer) trivial)
          (ha flowId rfl (.provider callId .accept) rfl) (ha flowId rfl (.updateCall callId .markIvrAutoAccepted) trivial)
          (fun _ => h₀.reports.stamp _ _ _) _
      refine haccept.bind fun _ => ?_
      exact Prog.Takes.mono (Prog.stays_cmd (h₀.offering (.emit (.callIncoming _ _ _ _)) trivial)) h₀.le
    | queue queue => exact hoffer _ _

variable (hp : Reports P Q)
include hp

theorem handleIncomingCall_takes (line : Line) (offer : InboundOffer) (outcome : InboundOutcome)
    (ha : outcome.ivrFlowId.isSome → ∀ s : Stmt, s.AutoAnswering → P.Keeps Q₀ s) :
    (handleIncomingCall line offer outcome).Takes P Q₀ Q := by
  have hroute : ∀ (base : CallRow) (ringingAt : Nat), base.agentId = none ∧ base.status = .ringing →
      ∀ (route) (k : Option Nat → Code Unit), (∀ flowId, route = .ivr flowId → outcome.ivrFlowId.isSome) →
      k none = pure () →
      (∀ callId, k (some callId) = handleRoutedCall line offer outcome route callId ringingAt) →
      (Prog.cmd (Stmt.createCall (routedRow base route)) >>= k).Takes P Q₀ Q := by
    intro base ringingAt hb route k hi hnone hsome
    refine .bind (h₀.reports.keeps (.createCall _) ?_) fun callId => ?_
    · cases route <;> exact hb
    · cases callId with
      | none =>
        rw [hnone]
        exact Prog.takes_ret h₀.le _
      | some callId =>
        rw [hsome]
        exact handleRoutedCall_takes hr he h₀ _ _ _ _ _ _ fun flowId hf => ha (hi flowId hf)
  have hb : ∀ ringingAt, (baseRow line offer ringingAt).agentId = none ∧
      (baseRow line offer ringingAt).status = .ringing := fun _ => ⟨rfl, rfl⟩
  refine .bind (h₀.read _ trivial) fun now => .bind (h₀.read _ trivial) fun tombstone => ?_
  cases tombstone with
  | some tombstone =>
    exact (handleMissedBeforeOffer_stays hr he hp _ _ _ _ (hp.keeps (.createCall _) (hb _))).of_le h₀.le
  | none =>
    refine .bind (h₀.read _ trivial) fun active => .ite (fun _ => ?_) fun _ => ?_
    · exact (recordDuplicate_stays hp _ _ (hp.keeps (.createCall _) (hb _))).of_le h₀.le
    · refine .ite (fun _ => ?_) fun _ => ?_
      · refine hroute _ (offer.offeredAt.getD now) (hb _) .nowhere _ (fun _ h => by cases h) ?_ ?_
        · rfl
        · exact fun _ => rfl
      · refine route_takes h₀.toLooks _ _ fun route hi => hroute _ (offer.offeredAt.getD now) (hb _) route _ hi ?_ ?_
        · rfl
        · exact fun _ => rfl

/-- An inbound call's handler leaves the phases `Q₀` when it first offers waiting calls. -/
theorem inboundCall_takes (line : Line) (offer : InboundOffer) (outcome : InboundOutcome)
    (ha : outcome.ivrFlowId.isSome → ∀ s : Stmt, s.AutoAnswering → P.Keeps Q₀ s) :
    (inboundCall line offer outcome).Takes P Q₀ Q := by
  refine .bind (h₀.read _ trivial) fun known => .ite (fun _ => Prog.takes_ret h₀.le _) fun _ => ?_
  refine .bind (h₀.reports.keeps (.claimOwnership _) trivial) fun _ =>
    .ite (fun _ => Prog.takes_ret h₀.le _) fun _ => ?_
  refine (handleIncomingCall_takes hr he h₀ hp line offer outcome ha).bind fun _ => ?_
  refine .bind (hr.read _ trivial) fun latest => .ite (fun _ => ?_) fun _ => Prog.stays_ret _
  exact hp.keeps (.record (.releaseOwnership _)) trivial

end arrival

theorem inboundCall_stays (hr : Routes P Q) (he : ∀ s : Stmt, s.Ending → P.Keeps Q s) (hp : Reports P Q)
    (hc : ∀ agentId callId, P.Keeps Q (.claimAgentAndAssignCall agentId callId false))
    (ho : ∀ s : Stmt, s.Offering → P.Keeps Q s) (line : Line) (offer : InboundOffer) (outcome : InboundOutcome)
    (ha : outcome.ivrFlowId.isSome → ∀ s : Stmt, s.AutoAnswering → P.Keeps Q s) :
    (inboundCall line offer outcome).Stays P Q :=
  inboundCall_takes hr he ⟨⟨hr.toLooks, hc⟩, fun _ => id, hp, ho⟩ hp line offer outcome ha

end Callio
