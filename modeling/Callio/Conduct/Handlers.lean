import Callio.Conduct.Agents
import Callio.Conduct.Ingress
import Callio.Core.Handlers

/-! What each handler may do, for any protocol. -/

namespace Callio

open Concurrency Code

variable {P : Protocol Stmt.Res} {Q : P.Phase → Prop}

/-- Statements of an outbound call's beginning. -/
@[simp] def Stmt.Initiating : Stmt → Prop
  | createCall row => row.direction = .outbound ∧ row.status = .initiated ∧ row.state = none
  | updateAgent _ (.holdForOwnCall _) => True
  | updateCall _ (.updateTimestamp field _) => field = .ringingAt
  | updateCall _ .correctNoAnswerIfAnswered => True
  | record (.deleteAgentConnection _) | record (.createAgentConnection _ _) => True
  | record (.joinParticipant _ _) | media _ (.answerAgent _) => True
  | _ => False

/-- Statements of the agent's `call:start`. -/
@[simp] def Stmt.Starting : Stmt → Prop
  | updateAgent _ (.holdForOwnCall _) => True
  | updateCall _ (.updateTimestamp field _) => field = .ringingAt
  | updateCall _ .correctNoAnswerIfAnswered => True
  | record (.deleteAgentConnection _) | record (.createAgentConnection _ _) => True
  | record (.joinParticipant _ _) | media _ (.answerAgent _) => True
  | _ => False

theorem Stmt.Starting.initiating {s : Stmt} (h : s.Starting) : s.Initiating := by
  cases s with
  | createCall row => cases h
  | updateAgent a u => cases u <;> simp_all
  | updateCall c u => cases u <;> simp_all
  | record op => cases op <;> simp_all
  | media c op => cases op <;> simp_all
  | _ => cases h

/-- Statements that dial the customer. -/
@[simp] def Stmt.Dialling : Stmt → Prop
  | updateCall _ (.updateProviderCallId _) | media _ .offerCustomer => True
  | provider _ .initiate | emit (.callError _ _) => True
  | _ => False

/-- Statements of an IVR session's end. -/
@[simp] def Stmt.LeavingIvr : Stmt → Prop
  | updateCall _ (.updateCallState state status) =>
      state = some .queue ∧ status = some .ringing ∨ state = none ∧ status = none
  | updateCall _ (.updateTimestamp field _) => field = .ringingAt
  | updateCall _ .correctNoAnswerIfAnswered | updateCall _ (.enterQueue _) => True
  | _ => False

/-- Statements of a call declined: it is claimed to be ended. -/
@[simp] def Stmt.Declining : Stmt → Prop
  | updateCall _ (.assignCallToAgentIfEligible _) => True
  | emit (.callHandled _ _) | emit (.callError _ _) => True
  | _ => False

/-- The kinds of statements. -/
inductive Vocabulary
  | routing | claiming | makingLeg | offering | ending | withdrawing | reporting | autoAnswering | advancing
  | accepting | reconnecting | answeringReconnect | declining | transferring | initiating | dialling | leavingIvr
  | finishingIvr | waiting
  deriving DecidableEq

@[simp] def Vocabulary.Has : Vocabulary → Stmt → Prop
  | routing, s => s.Routing
  | claiming, s => ∃ a c, s = .claimAgentAndAssignCall a c false
  | makingLeg, s => s.MakingLeg
  | offering, s => s.Offering
  | ending, s => s.Ending
  | withdrawing, s => s.Withdrawing
  | reporting, s => s.Reporting
  | autoAnswering, s => s.AutoAnswering
  | advancing, s => s.Advancing
  | accepting, s => s.Accepting
  | reconnecting, s => s.Reconnecting
  | answeringReconnect, s => s.AnsweringReconnect
  | declining, s => s.Declining
  | transferring, s => s.Transferring
  | initiating, s => s.Initiating
  | dialling, s => s.Dialling
  | leavingIvr, s => s.LeavingIvr
  | finishingIvr, s => ∃ c, s = .updateCall c (.updateCallState none none)
  | waiting, s => ∃ ms, s = .wait ms

open Vocabulary in
/-- What a handler issues, beside routing and ending calls. -/
def Handler.vocabulary : Handler → List Vocabulary
  | inboundCall _ _ outcome =>
      [reporting, claiming, offering] ++ if outcome.ivrFlowId.isSome then [autoAnswering] else []
  | statusChanged _ _ status _ =>
      reporting :: if status = .ringing ∨ status = .accepted then [advancing] else []
  | callEnded _ _ => [reporting]
  | ivrFinished _ _ => [finishingIvr]
  | ivrTransfer _ => [leavingIvr, claiming, offering]
  | agentJoined _ => [accepting]
  | ringingAgentReconnect _ | agentReconnected _ _ _ _ => [reconnecting, makingLeg]
  | reconnectAnswered _ => [answeringReconnect]
  | callRejected _ _ => [withdrawing, declining]
  | callTransferred .. => [transferring, offering]
  | createOutboundIntent _ | callStart _ _ _ => [initiating]
  | customerConnection _ _ => [dialling]
  | queueTimeoutTick _ => [withdrawing]
  | clock _ => [waiting]
  | _ => []

/-- The handlers that count offers missed. -/
def Handler.counts : Handler → Bool
  | callEnded _ _ | queueTimeoutTick _ | ivrRingCleanup => true
  | _ => false

/-! ## Outbound calls -/

section initiation

variable (h : Ends P Q)
include h

theorem createOutboundIntent_stays (hi : ∀ s : Stmt, s.Initiating → P.Keeps Q s) (i : OutboundIntent) :
    (createOutboundIntent i).Stays P Q :=
  .ite (fun _ => Prog.stays_ret _) fun _ => .bind (h.read _ trivial) fun _ =>
    .ite (fun _ => Prog.stays_ret _) fun _ => .bind (hi (.createCall _) ⟨rfl, rfl, rfl⟩) fun _ => Prog.stays_ret _

theorem handleCallStart_stays (hi : ∀ s : Stmt, s.Starting → P.Keeps Q s) (callId userId tenantId : Nat) :
    (handleCallStart callId userId tenantId).Stays P Q := by
  have hhold : (holdForOwnCall userId callId).Stays P Q :=
    .bind (hi (.updateAgent _ (.holdForOwnCall _)) trivial) fun _ =>
      .ite (fun _ => Prog.stays_ret _) fun _ => .bind (h.read _ trivial) fun _ => Prog.stays_ret _
  have hstamp : ∀ now, (updateTimestamp callId .ringingAt now).Stays P Q := fun now =>
    .bind (hi (.updateCall callId (.updateTimestamp .ringingAt now)) rfl) fun _ => Prog.stays_ret _
  have hleg : (MediaLegs.answerAgent callId userId).Stays P Q :=
    .bind (hi (.media callId (.answerAgent _)) trivial) fun _ =>
      .bind (hi (.record (.deleteAgentConnection _)) trivial) fun _ =>
        .bind (hi (.record (.createAgentConnection _ _)) trivial) fun _ => Prog.stays_ret _
  refine .bind (h.read _ trivial) fun call => ?_
  cases call with
  | none => exact Prog.stays_ret _
  | some call =>
    refine .ite (fun _ => Prog.stays_ret _) fun _ => .bind (h.read _ trivial) fun _ => ?_
    refine .ite (fun _ => Prog.stays_ret _) fun _ => hhold.bind fun _ => ?_
    refine .ite (fun _ => Prog.stays_ret _) fun _ => .bind (h.read _ trivial) fun now => ?_
    exact (hstamp now).bind fun _ => hleg.bind fun _ => hi (.record (.joinParticipant _ _)) trivial

end initiation

/-- The customer dialled: the dial leads from `Q` to `Q₁`, where the id is stored or
the call ended. -/
theorem triggerCustomerConnection_takes {Q₁ Q₂ : P.Phase → Prop} {callId : Nat} {providerCallId : Option Nat}
    (h : Routes P Q) (h₁ : Ends P Q₁) (hm : P.Keeps Q (.media callId .offerCustomer))
    (hd : (Code.provider callId .initiate).Takes P Q Q₁)
    (hs : ∀ p, P.Keeps Q₁ (.updateCall callId (.updateProviderCallId p)))
    (he : ∀ text, P.Keeps Q₁ (.emit (.callError callId text))) (h₀ : ∀ q, Q q → Q₂ q) (hq : ∀ q, Q₁ q → Q₂ q) :
    (triggerCustomerConnection callId providerCallId).Takes P Q Q₂ := by
  refine .bind (h.read (.ownsMedia callId) trivial) fun _ => .ite (fun _ => Prog.takes_ret h₀ _) fun _ => ?_
  refine .bind (h.read (.findById callId) trivial) fun _ => .bind hm fun _ => hd.bind fun _ => ?_
  cases providerCallId with
  | some p => exact .bind (hs p) fun _ => Prog.takes_ret hq _
  | none => exact .bind (he _) fun _ => (h₁.endById callId _).bind fun _ => Prog.takes_ret hq _

/-! ## Leaving the IVR -/

namespace IvrTransfer

variable (t : IvrTransfer)

theorem targetAvailability_stays (h : Looks P Q) : t.targetAvailability.Stays P Q := by
  unfold IvrTransfer.targetAvailability
  split
  · refine .bind (h.read _ trivial) fun agent => ?_
    cases agent <;> exact Prog.stays_ret _
  · exact Prog.stays_ret _
  · refine .bind (h.read _ trivial) fun queue => ?_
    cases queue with
    | none => exact Prog.stays_ret _
    | some queue =>
      exact .ite (fun _ => Prog.stays_ret _) fun _ => .bind (h.read _ trivial) fun _ => Prog.stays_ret _

section leaving

variable {Q₀ : P.Phase → Prop} (h : Seeks P Q) (h₀ : Claims P Q₀) (hle : ∀ q, Q₀ q → Q q)
  (hi : ∀ s : Stmt, s.LeavingIvr ∨ s.Offering → P.Keeps Q₀ s)
include h h₀ hle hi

theorem moveToQueue_takes : t.moveToQueue.Takes P Q₀ Q := by
  have hdeliver : ∀ callId agentId, (deliverAssignedCall callId agentId).Stays P Q₀ := fun callId agentId =>
    (agentOffer_stays (fun s hs => hi s (.inr hs.offering)) callId).bind fun _ =>
      hi (.emit (.callIncoming callId (some agentId) [] _)) (.inr trivial)
  have hassign : ∀ k : Option Call → Code Unit, k none = pure () →
      (∀ call, k (some call) = assignTransferredCall t.callId t.tenantId call.queueId t.resolved) →
      (Code.read (.findById t.callId) >>= k).Takes P Q₀ Q := by
    intro k hnone hsome
    refine .bind (h₀.read _ trivial) fun call => ?_
    cases call with
    | none =>
      rw [hnone]
      exact Prog.takes_ret hle _
    | some call =>
      rw [hsome]
      exact h.assignTransferredCall hle h₀ hdeliver _ _ _ _
  refine .bind (.bind (hi (.updateCall t.callId (.updateCallState (some .queue) (some .ringing)))
    (.inl (.inl ⟨rfl, rfl⟩))) fun _ => Prog.stays_ret _) fun _ => ?_
  have hstamp : ∀ now, (updateTimestamp t.callId .ringingAt now).Stays P Q₀ := fun now =>
    .bind (hi (.updateCall t.callId (.updateTimestamp .ringingAt now)) (.inl rfl)) fun _ => Prog.stays_ret _
  refine .bind (h₀.read _ trivial) fun now => (hstamp now).bind fun _ => ?_
  refine .bind (hi (.updateCall t.callId (.enterQueue _)) (.inl trivial)) fun _ => ?_
  refine .bind (h₀.read _ trivial) fun call => .ite (fun _ => ?_) fun _ => ?_
  · refine (MediaLegs.offerAgent_stays (fun s hs => hi s (.inr hs.offering)) _).bind fun _ => hassign _ ?_ ?_
    · rfl
    · exact fun _ => rfl
  · refine hassign _ ?_ ?_
    · rfl
    · exact fun _ => rfl

/-- A transfer out of the IVR leaves the phases `Q₀` when the call is offered to all,
or ended. -/
theorem handle_takes (hend : (ivrFinished t.callId .hungUp).Stays P Q) : t.handle.Takes P Q₀ Q := by
  have hmove : t.moveToQueue.Takes P Q₀ Q := t.moveToQueue_takes h h₀ hle hi
  have hplay : ∀ action, (t.playOnceAndAct action).Takes P Q₀ Q := fun _ =>
    .ite (fun _ => Prog.takes_ret hle _) fun _ => hend.of_le hle
  refine (t.targetAvailability_stays h₀.toLooks).bind fun availability => ?_
  cases availability with
  | available => exact hmove
  | offline => exact .ite (fun _ => hmove) fun _ => hplay _
  | busy => exact .ite (fun _ => hmove) fun _ => hplay _

end leaving

end IvrTransfer

/-! ## Every handler -/

/-- The handlers of the provider's reports. -/
def Handler.reports : Handler → Bool
  | inboundCall _ _ _ | statusChanged _ _ _ _ | callEnded _ _ => true
  | _ => false

/-- A handler follows any protocol that lets its phases end calls and issue the
handler's vocabulary, if it records a report as the protocol says. -/
theorem Handler.code_stays_of_ends (hends : Ends P Q) (h : Handler) (hreport : h.reports = true → h.code.Stays P Q)
    (hc : h.counts = true → ∀ a, P.Keeps Q (.incrementMissed a))
    (hv : ∀ v ∈ h.vocabulary, ∀ s : Stmt, v.Has s → P.Keeps Q s) : h.code.Stays P Q := by
  have hr := hends.toRoutes
  cases h with
  | inboundCall line offer outcome => exact hreport rfl
  | statusChanged line p status t => exact hreport rfl
  | callEnded line e => exact hreport rfl
  | lineRingExpired c => exact (hends.endById c _).bind fun _ => Prog.stays_ret _
  | ivrFinished c action =>
    exact hends.ivrFinished (fun c => hv .finishingIvr (by simp [vocabulary]) _ ⟨c, rfl⟩) c action
  | ivrTransfer t =>
    have hleave := hv .leavingIvr (by simp [vocabulary])
    have hclaims : Claims P Q := ⟨hr.toLooks, fun a c => hv .claiming (by simp [vocabulary]) _ ⟨a, c, rfl⟩⟩
    refine t.handle_takes hr.toSeeks hclaims (fun _ => id) (fun s hs => ?_) (hends.ivrFinished (fun c => ?_) _ _)
    · exact hs.elim (hleave s) (hv .offering (by simp [vocabulary]) s)
    · exact hleave (.updateCall c (.updateCallState none none)) (.inr ⟨rfl, rfl⟩)
  | agentJoined a =>
    exact handleAgentJoined_stays hr (hv .accepting (by simp [vocabulary])) a (a.abortOnMediaFailure_stays hends)
  | ringingAgentReconnect c =>
    refine handleRingingAgentReconnect_stays hr (fun s hs => ?_) c
    rcases hs with hs | hs
    · exact hv .reconnecting (by simp [vocabulary]) s hs
    · exact hv .makingLeg (by simp [vocabulary]) s hs
  | agentReconnected c u t withOffer =>
    refine handleAgentReconnected_stays hr (fun s hs => ?_) c u t withOffer
    rcases hs with hs | hs
    · exact hv .reconnecting (by simp [vocabulary]) s hs
    · exact hv .makingLeg (by simp [vocabulary]) s hs
  | reconnectAnswered a =>
    exact handleReconnectAnswered_stays hr (hv .answeringReconnect (by simp [vocabulary])) a
  | callRejected c u =>
    have hd := hv .declining (by simp [vocabulary])
    have hw := hv .withdrawing (by simp [vocabulary])
    have hpass : ∀ (call : Call) (agentId : Nat), (passOffer call agentId .declined).Stays P Q :=
      fun call agentId => passOffer_stays hr (fun hk => absurd hk (by decide)) (fun s hs => hw s hs.takingBack.withdrawing)
        (hw (.updateCall call.id (.withdrawOffer agentId none)) trivial)
    exact handleCallRejected_stays hends hpass
      (fun c agentIds => hw (.emit (.offerWithdrawn c agentIds)) trivial)
      (fun c a => hd (.updateCall c (.assignCallToAgentIfEligible a)) trivial)
      (fun c t => hd (.emit (.callError c t)) trivial)
      (fun c a => hd (.emit (.callHandled c a)) trivial) c u
  | callTransferred c t request assignorId =>
    refine handleCallTransferred_stays hr.toLooks (fun s hs => ?_) c t request assignorId
    rcases hs with hs | hs
    · exact hv .transferring (by simp [vocabulary]) s hs
    · exact hv .offering (by simp [vocabulary]) s hs
  | callTerminated c reason byConsumer => exact hends.handleCallTerminated c reason byConsumer
  | reconnectExpired c => exact hends.reconnectExpired c
  | createOutboundIntent i => exact createOutboundIntent_stays hends (hv .initiating (by simp [vocabulary])) i
  | callStart c u t =>
    exact handleCallStart_stays hends (fun s hs => hv .initiating (by simp [vocabulary]) s hs.initiating) c u t
  | customerConnection c p =>
    have hd := hv .dialling (by simp [vocabulary])
    exact triggerCustomerConnection_takes hr hends (hd (.media c .offerCustomer) trivial)
      (hd (.provider c .initiate) trivial) (fun p => hd (.updateCall c (.updateProviderCallId p)) trivial)
      (fun text => hd (.emit (.callError c text)) trivial) (fun _ => id) fun _ => id
  | queueTimeoutTick t => exact queueTimeoutTick_stays hends (hc rfl) (hv .withdrawing (by simp [vocabulary])) t
  | expireOutboundIntents => exact hends.expireOutboundIntents
  | periodicCleanup => exact hends.runPeriodicCleanup
  | ivrRingCleanup => exact hends.runIvrRingCleanup (hc rfl)
  | batchCleanup items => exact hends.batchCleanupCalls items
  | releaseStaleCalls a => exact hends.releaseStaleCallsForUser a
  | drain t => exact hr.assignOldestUnassignedCall t
  | clock ms => exact .call (hv .waiting (by simp [vocabulary]) _ ⟨ms, rfl⟩) fun _ => Prog.stays_ret _

/-- A handler follows any protocol that lets its phases route, end calls and
issue the handler's vocabulary. -/
theorem Handler.code_stays (hr : Routes P Q) (he : ∀ s : Stmt, s.Ending → P.Keeps Q s) (h : Handler)
    (hc : h.counts = true → ∀ a, P.Keeps Q (.incrementMissed a))
    (hv : ∀ v ∈ h.vocabulary, ∀ s : Stmt, v.Has s → P.Keeps Q s) : h.code.Stays P Q := by
  refine h.code_stays_of_ends (.of_keeps hr he) (fun hreport => ?_) hc hv
  cases h with
  | inboundCall line offer outcome =>
    exact inboundCall_stays hr he (.of_keeps (hv .reporting (by simp [vocabulary])))
      (fun a c => hv .claiming (by simp [vocabulary]) _ ⟨a, c, rfl⟩) (hv .offering (by simp [vocabulary])) _ _ _
      fun hi => hv .autoAnswering (by simp [vocabulary, hi])
  | statusChanged line p status t =>
    exact statusChanged_stays hr he (.of_keeps (hv .reporting (by simp [vocabulary]))) _ _ _ _
      fun hi => hv .advancing (by simp [vocabulary, hi])
  | callEnded line e => exact callEnded_stays hr he (.of_keeps (hv .reporting (by simp [vocabulary]))) (hc rfl) line e
  | _ => cases hreport

/-- A handler issues statements of its vocabulary, of routing and of ending only. -/
theorem Handler.code_only {S : Stmt → Prop} (h : Handler)
    (hv : ∀ v ∈ [Vocabulary.routing, .offering, .ending] ++ h.vocabulary, ∀ s : Stmt, v.Has s → S s) :
    h.code.Stays (Protocol.only S) fun _ => True := by
  refine h.code_stays (.of_keeps fun s hs => Protocol.keeps_only ?_)
    (fun s hs => Protocol.keeps_only (hv .ending (by simp) s hs))
    (fun _ a => Protocol.keeps_only (hv .routing (by simp) (.incrementMissed a) trivial))
    fun v hm s hs => Protocol.keeps_only (hv v (by simp [hm]) s hs)
  rcases hs with hs | hs
  · exact hv .routing (by simp) s hs
  · exact hv .offering (by simp) s hs

end Callio
