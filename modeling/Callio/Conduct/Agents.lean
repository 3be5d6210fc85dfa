import Callio.Conduct.Withdrawal
import Callio.Core.AgentEvents

/-! What an agent's requests do, for any protocol: accepting, reconnecting,
declining and transferring. -/

namespace Callio

open Concurrency Code

variable {P : Protocol Stmt.Res} {Q : P.Phase → Prop}

/-- Statements that put the agent through to the customer. -/
@[simp] def Stmt.Joining : Stmt → Prop
  | updateCall _ (.assignCallToAgentIfEligible _) => True
  | updateCall _ (.transitionStatus expected status) => expected = .ringing ∧ status = .inProgress
  | updateCall _ (.updateState state) => state = some .active
  | updateCall _ (.updateTimestamp _ _) | updateCall _ .correctNoAnswerIfAnswered => True
  | media _ .bridge => True
  | record (.joinParticipant _ _) | record (.logAccepted _) => True
  | emit (.callHandled _ _) => True
  | _ => False

/-- The same, for one accept: it claims its own call for its own agent. -/
def Stmt.JoiningFor (a : Accept) (s : Stmt) : Prop :=
  s.Joining ∧ ∀ c b, s = .updateCall c (.assignCallToAgentIfEligible b) → c = a.callId ∧ b = a.userId

/-- Statements of an accept on the call's row, and beside it. -/
@[simp] def Stmt.Connecting (s : Stmt) : Prop :=
  s.Joining ∨ match s with
    | query (.hasAgentOffer _) => True
    | updateCall _ (.claimHandover _) => True
    | updateAgent _ (.holdForOwnCall _) | updateAgent _ (.releaseFromCall _) => True
    | emit (.callError _ _) => True
    | _ => False

/-- Statements of an accept. -/
@[simp] def Stmt.Accepting (s : Stmt) : Prop :=
  s.Connecting ∨ match s with
    | media _ (.agentAccepted _ _ _) | media _ .answerCustomer => True
    | provider _ action => action = .accept
    | _ => False

/-- Statements of an agent coming back to a call. -/
@[simp] def Stmt.Reconnecting : Stmt → Prop
  | media _ (.answerAgent _) | media _ .bridge => True
  | emit (.ringingReconnectDeliver _ _) | emit (.callReconnected _ _ _) => True
  | _ => False

/-- Statements of the answer to the offer a reconnect made. -/
@[simp] def Stmt.AnsweringReconnect : Stmt → Prop
  | query (.hasAgentOffer _) => True
  | media _ (.agentAccepted _ _ _) | media _ .bridge => True
  | _ => False

/-- Statements that follow a call's move to another agent. -/
@[simp] def Stmt.HandingOver : Stmt → Prop
  | updateAgent _ (.releaseFromCall _) => True
  | updateCall _ (.updateQueue _) | updateCall _ (.markHandoverOffered _) => True
  | record (.leaveParticipant _ _) | media _ (.dropAgent _) => True
  | _ => False

/-- Statements that move a call to another agent. -/
@[simp] def Stmt.Transferring (s : Stmt) : Prop :=
  s.HandingOver ∨ match s with
    | updateAgent _ (.claimAgentForCall _) => True
    | updateCall _ (.assignCallToAgentIfUnassigned _) | updateCall _ (.updateCallAgentIfCurrent _ _) => True
    | _ => False

/-! ## Accepting -/

namespace Accept

variable (a : Accept)

theorem connected_stays (hb : P.Keeps Q (.media a.callId .bridge))
    (hj : P.Keeps Q (.record (.joinParticipant a.callId a.userId)))
    (hl : P.Keeps Q (.record (.logAccepted a.callId)))
    (hm : P.Keeps Q (.record (.resetMissedStreak a.userId)))
    (hh : P.Keeps Q (.emit (.callHandled a.callId (some a.userId)))) : a.connected.Stays P Q :=
  .bind hb fun _ => .bind hj fun _ => .bind hl fun _ => .bind hm fun _ => hh

theorem checkCapacity_stays (h : Routes P Q) : a.checkCapacity.Stays P Q := by
  refine .bind (h.read _ trivial) fun row => (h.getQueue _).bind fun queue => ?_
  refine (h.isAtCapacity queue _).bind fun _ => .ite (fun _ => Prog.stays_ret _) fun _ => ?_
  exact .bind (h.read _ trivial) fun _ => .ite (fun _ => Prog.stays_ret _) fun _ => Prog.stays_ret _

theorem claim_stays (h : Routes P Q)
    (ha : P.Keeps Q (.updateCall a.callId (.assignCallToAgentIfEligible a.userId)))
    (hc : P.Keeps Q (.updateCall a.callId (.claimHandover a.userId)))
    (hh : P.Keeps Q (.updateAgent a.userId (.holdForOwnCall a.callId))) (preGateStatus : CallStatus) :
    (a.claim preGateStatus).Stays P Q := by
  refine .ite (fun _ => ?_) fun _ => ?_
  · refine .bind ha fun _ => .ite (fun _ => Prog.stays_ret _) fun _ => ?_
    refine .bind (h.read _ trivial) fun _ => ?_
    exact (holdForOwnCall_stays hh (h.read _ trivial)).bind fun _ => Prog.stays_ret _
  · exact .bind hc fun _ => .ite (fun _ => Prog.stays_ret _) fun _ => Prog.stays_ret _

section joining

variable (h : Routes P Q) (hj : ∀ s : Stmt, s.JoiningFor a → P.Keeps Q s)
  (hm : P.Keeps Q (.media a.callId .answerCustomer)) (hp : P.Keeps Q (.provider a.callId .accept))

include h hj in
theorem connectCall_stays (call : Call) : (a.connectCall call).Stays P Q := by
  refine .bind (hj (.updateCall a.callId (.assignCallToAgentIfEligible a.userId)) ⟨trivial, by rintro _ _ ⟨⟩; exact ⟨rfl, rfl⟩⟩) fun _ => ?_
  refine .ite (fun _ => Prog.stays_ret _) fun _ => ?_
  refine .bind (hj (.updateCall a.callId (.transitionStatus .ringing .inProgress)) ⟨⟨rfl, rfl⟩, nofun⟩) fun _ => ?_
  refine .ite (fun _ => .bind (h.read _ trivial) fun _ => Prog.stays_ret _) fun _ => ?_
  refine .bind (hj (.updateCall a.callId (.updateState (some .active))) ⟨rfl, nofun⟩) fun _ => ?_
  refine .ite (fun _ => .bind (h.read _ trivial) fun now => ?_) fun _ => Prog.stays_ret _
  exact (updateTimestamp_stays (hj (.updateCall a.callId (.updateTimestamp _ _)) ⟨trivial, nofun⟩)
    (hj (.updateCall a.callId .correctNoAnswerIfAnswered) ⟨trivial, nofun⟩)).bind fun _ => Prog.stays_ret _

include h hm hp in
theorem answerCustomer_stays : a.answerCustomer.Stays P Q := by
  refine .bind (h.read _ trivial) fun _ => .ite (fun _ => Prog.stays_ret _) fun _ => ?_
  refine .bind hm fun _ => .bind hp fun _ => .ite (fun _ => Prog.stays_ret _) fun _ => ?_
  refine .bind (h.read _ trivial) fun status => ?_
  rcases status with _ | _ | _ | _ | _ | _ <;> exact Prog.stays_ret _

include h hj hm hp

theorem answerRinging_stays (call : Call) : (a.answerRinging call).Stays P Q := by
  have hconnect := a.connectCall_stays h hj call
  refine .ite (fun _ => (a.answerCustomer_stays h hm hp).bind fun answered => ?_) fun _ => hconnect
  cases answered with
  | error err => exact Prog.stays_ret _
  | ok _ => exact hconnect

theorem answerRecord_stays (callRecord : Option Call) : (a.answerRecord callRecord).Stays P Q := by
  cases callRecord with
  | none => exact Prog.stays_ret _
  | some call =>
    exact .ite (fun _ => a.answerRinging_stays h hj hm hp call) fun _ => Prog.stays_ret _

theorem joinClaimed_takes {Q₀ : P.Phase → Prop} (happly : a.applyAnswer.Takes P Q₀ Q) :
    a.joinClaimed.Takes P Q₀ Q := by
  refine happly.bind fun applied => ?_
  cases applied with
  | error err => exact Prog.stays_ret _
  | ok _ =>
    refine .bind (h.read _ trivial) fun record => ?_
    refine (a.answerRecord_stays h hj hm hp record).bind fun answered => ?_
    cases answered with
    | error err => exact Prog.stays_ret _
    | ok _ =>
      exact (a.connected_stays (hj (.media _ .bridge) ⟨trivial, nofun⟩)
        (hj (.record (.joinParticipant _ _)) ⟨trivial, nofun⟩)
        (hj (.record (.logAccepted _)) ⟨trivial, nofun⟩) (h.resetting (.record (.resetMissedStreak _)) trivial)
        (hj (.emit (.callHandled _ _)) ⟨trivial, nofun⟩)).bind fun _ => Prog.stays_ret _

end joining

theorem abortOnMediaFailure_stays (h : Ends P Q) : a.abortOnMediaFailure.Stays P Q := by
  refine .bind (h.read _ trivial) fun call => ?_
  cases call with
  | none => exact Prog.stays_ret _
  | some call => exact (h.endCall _ _).bind fun _ => Prog.stays_ret _

section accepting

variable (habort : a.abortOnMediaFailure.Stays P Q)
include habort

theorem applyAnswer_stays
    (ha : P.Keeps Q (.media a.callId (.agentAccepted a.userId a.sdpAnswer a.audio))) :
    a.applyAnswer.Stays P Q := by
  refine .bind ha fun accepted => ?_
  cases accepted with
  | noAudio => exact habort.bind fun _ => Prog.stays_ret _
  | _ => exact Prog.stays_ret _

theorem joinClaimed_stays (h : Routes P Q) (ha : ∀ s : Stmt, s.Accepting → P.Keeps Q s) : a.joinClaimed.Stays P Q :=
  a.joinClaimed_takes h (fun s hs => ha s (.inl (.inl hs.1)))
    (ha (.media _ .answerCustomer) (.inr trivial)) (ha (.provider _ .accept) (.inr rfl))
    (a.applyAnswer_stays habort (ha (.media _ (.agentAccepted _ _ _)) (.inr trivial)))

end accepting

/-- The claimed accept, where connecting the call leads from `Q₁` to `Q₂`. -/
theorem joinClaimed_connects {Q₁ Q₂ : P.Phase → Prop} (h : Ends P Q₁)
    (ha : P.Keeps Q₁ (.media a.callId (.agentAccepted a.userId a.sdpAnswer a.audio)))
    (hm : P.Keeps Q₁ (.media a.callId .answerCustomer)) (hp : P.Keeps Q₁ (.provider a.callId .accept))
    (hc : ∀ call, (a.connectCall call).Takes P Q₁ Q₂) (hd : a.connected.Stays P Q₂)
    (h₁ : ∀ q, Q₁ q → Q₂ q) : a.joinClaimed.Takes P Q₁ Q₂ := by
  have hrecord : ∀ record, (a.answerRecord record).Takes P Q₁ Q₂ := by
    intro record
    cases record with
    | none => exact Prog.takes_ret h₁ _
    | some call =>
      refine .ite (fun _ => .ite (fun _ => ?_) fun _ => hc call) fun _ => Prog.takes_ret h₁ _
      refine (a.answerCustomer_stays h.toRoutes hm hp).bind fun answered => ?_
      cases answered with
      | error err => exact Prog.takes_ret h₁ _
      | ok _ => exact hc call
  refine (a.applyAnswer_stays (a.abortOnMediaFailure_stays h) ha).bind fun applied => ?_
  cases applied with
  | error err => exact Prog.takes_ret h₁ _
  | ok _ =>
    refine .bind (h.read _ trivial) fun record => (hrecord record).bind fun answered => ?_
    cases answered with
    | error err => exact Prog.stays_ret _
    | ok _ => exact hd.bind fun _ => Prog.stays_ret _

/-- The accept in three parts: the checks, the claim, and what follows it. -/
theorem join_takes {Q₀ Q₁ Q₂ : P.Phase → Prop} (h : Routes P Q₀)
    (hc : ∀ status, (a.claim status).Takes P Q₀ Q₁) (hj : a.joinClaimed.Takes P Q₁ Q₂)
    (h₀ : ∀ q, Q₀ q → Q₂ q) (h₁ : ∀ q, Q₁ q → Q₂ q) : a.join.Takes P Q₀ Q₂ := by
  refine (a.checkCapacity_stays h).bind fun capacity => ?_
  cases capacity with
  | error err => exact Prog.takes_ret h₀ _
  | ok _ =>
    refine .bind (h.read _ trivial) fun status => .ite (fun _ => Prog.takes_ret h₀ _) fun _ => ?_
    refine (hc _).bind fun claimed => ?_
    cases claimed with
    | error err => exact Prog.takes_ret h₁ _
    | ok _ => exact hj

theorem cleanUp_stays (h : Routes P Q)
    (hr : P.Keeps Q (.updateAgent a.userId (.releaseFromCall a.callId)))
    (he : ∀ text, P.Keeps Q (.emit (.callError a.callId text))) (err : AcceptError) :
    (a.cleanUp err).Stays P Q := by
  refine .bind (h.read _ trivial) fun call => ?_
  cases call with
  | none => exact he _
  | some call =>
    refine .ite (fun _ => ?_) fun _ => he _
    refine (releaseAgent_stays hr (fun h => absurd h (by decide))).bind fun _ => ?_
    exact (h.assignOldestUnassignedCall _).bind fun _ => he _

/-- The accept followed by what its failure does. -/
theorem handleAgentJoined_takes {Q₀ Q₂ : P.Phase → Prop} (h : Routes P Q₂)
    (hq : P.Keeps Q₀ (.query (.hasAgentOffer a.callId))) (hj : a.join.Takes P Q₀ Q₂)
    (h₀ : ∀ q, Q₀ q → Q₂ q) (hr : P.Keeps Q₂ (.updateAgent a.userId (.releaseFromCall a.callId)))
    (he : ∀ text, P.Keeps Q₂ (.emit (.callError a.callId text))) :
    (handleAgentJoined a).Takes P Q₀ Q₂ := by
  refine .bind hq fun _ => .ite (fun _ => Prog.takes_ret h₀ _) fun _ => hj.bind fun joined => ?_
  rcases joined with err | _
  · cases err with
    | agentOnCall | ownershipChanged | transferNotYours => exact he _
    | _ => exact a.cleanUp_stays h hr he _
  · exact Prog.stays_ret _

end Accept

theorem handleAgentJoined_stays (h : Routes P Q) (ha : ∀ s : Stmt, s.Accepting → P.Keeps Q s)
    (a : Accept) (habort : a.abortOnMediaFailure.Stays P Q) : (handleAgentJoined a).Stays P Q :=
  have hc : ∀ s : Stmt, s.Connecting → P.Keeps Q s := fun s hs => ha s (.inl hs)
  a.handleAgentJoined_takes h (hc (.query (.hasAgentOffer _)) (.inr trivial))
    (a.join_takes h
      (a.claim_stays h (hc (.updateCall _ (.assignCallToAgentIfEligible _)) (.inl trivial))
        (hc (.updateCall _ (.claimHandover _)) (.inr trivial))
        (hc (.updateAgent _ (.holdForOwnCall _)) (.inr trivial)))
      (a.joinClaimed_stays habort h ha) (fun _ => id) fun _ => id)
    (fun _ => id) (hc (.updateAgent a.userId (.releaseFromCall a.callId)) (.inr trivial))
    fun text => hc (.emit (.callError a.callId text)) (.inr trivial)

/-! ## Reconnecting -/

section reconnect

variable (hr : Routes P Q) (hc : ∀ s : Stmt, s.Reconnecting ∨ s.MakingLeg → P.Keeps Q s)
include hr hc

theorem handleRingingAgentReconnect_stays (callId : Nat) :
    (handleRingingAgentReconnect callId).Stays P Q := by
  refine .bind (hr.read _ trivial) fun call => ?_
  cases call with
  | none => exact Prog.stays_ret _
  | some _ =>
    refine (MediaLegs.offerAgent_stays (fun s hs => hc s (.inr hs)) callId).bind fun _ => ?_
    exact hc (.emit (.ringingReconnectDeliver _ _)) (.inl trivial)

omit hr in
theorem answerAgent_stays (callId agentId : Nat) :
    (MediaLegs.answerAgent callId agentId).Stays P Q :=
  .bind (hc (.media callId (.answerAgent agentId)) (.inl trivial)) fun _ =>
    .bind (hc (.record (.deleteAgentConnection _)) (.inr trivial)) fun _ =>
      .bind (hc (.record (.createAgentConnection _ _)) (.inr trivial)) fun _ => Prog.stays_ret _

theorem handleAgentReconnected_stays (callId userId tenantId : Nat) (withOffer : Bool) :
    (handleAgentReconnected callId userId tenantId withOffer).Stays P Q := by
  have hemit : ∀ sdp, (Code.emit (.callReconnected callId userId sdp)).Stays P Q :=
    fun sdp => hc (.emit (.callReconnected _ _ _)) (.inl trivial)
  refine .bind (hr.read _ trivial) fun call => ?_
  cases call with
  | none => exact Prog.stays_ret _
  | some call =>
    refine .ite (fun _ => Prog.stays_ret _) fun _ => .ite (fun _ => ?_) fun _ => ?_
    · refine (answerAgent_stays hc callId userId).bind fun _ => ?_
      exact .bind (hc (.media callId .bridge) (.inl trivial)) fun _ => hemit _
    · exact (MediaLegs.offerAgent_stays (fun s hs => hc s (.inr hs)) callId).bind fun _ => hemit _

end reconnect

theorem handleReconnectAnswered_stays (hr : Routes P Q)
    (hc : ∀ s : Stmt, s.AnsweringReconnect → P.Keeps Q s) (a : Accept) :
    (handleReconnectAnswered a).Stays P Q := by
  refine .bind (hr.read _ trivial) fun call => ?_
  cases call with
  | none => exact Prog.stays_ret _
  | some call =>
    refine .ite (fun _ => Prog.stays_ret _) fun _ => ?_
    refine .bind (hc (.query (.hasAgentOffer _)) trivial) fun _ => ?_
    refine .ite (fun _ => Prog.stays_ret _) fun _ => ?_
    refine .bind (hc (.media a.callId (.agentAccepted _ _ _)) trivial) fun accepted => ?_
    cases accepted with
    | ok => exact hc (.media a.callId .bridge) trivial
    | _ => exact Prog.stays_ret _

/-! ## Declining and transferring -/

/-- A call declined: the read leads to the phases `Q₁ call`, and what follows stays
in them. -/
theorem handleCallRejected_takes (Q₁ : Call → P.Phase → Prop) {callId userId : Nat}
    (hread : ∀ q, Q q → P.allows q (.query (.findById callId)) ∧ Q (P.next q (.query (.findById callId)) none) ∧
      ∀ call, Q₁ call (P.next q (.query (.findById callId)) (some call)))
    (hback : ∀ call q, Q₁ call q → Q q) (h : ∀ call, Routes P (Q₁ call))
    (hend : ∀ (call : Call) opts, opts.provider ≠ .nothing →
      (CallTerminator.endCall { call with agentId := some userId } opts).Stays P (Q₁ call))
    (hpass : ∀ call agentId, (passOffer call agentId .declined).Stays P (Q₁ call))
    (hw : ∀ call c agentIds, P.Keeps (Q₁ call) (.emit (.offerWithdrawn c agentIds)))
    (hc : ∀ call c a, P.Keeps (Q₁ call) (.updateCall c (.assignCallToAgentIfEligible a)))
    (ht : ∀ call c text, P.Keeps (Q₁ call) (.emit (.callError c text)))
    (hh : ∀ call c a, P.Keeps (Q₁ call) (.emit (.callHandled c a))) :
    (handleCallRejected callId userId).Stays P Q := by
  intro q hq
  obtain ⟨hallows, hnone, hsome⟩ := hread q hq
  refine ⟨hallows, fun call => ?_⟩
  cases call with
  | none => exact hnone
  | some call =>
    refine Prog.Takes.mono (show Prog.Takes P (Q₁ call) (Q₁ call) _ from ?_) (hback call) _ (hsome call)
    refine .ite (fun _ => Prog.stays_ret _) fun _ => ((h call).getQueue _).bind fun queue => ?_
    refine .ite (fun _ => Prog.stays_ret _) fun _ => .ite (fun _ => ?_) fun _ => ?_
    · have hwithdrawn : (Code.emit (.offerWithdrawn callId [userId]) >>= fun _ => pure ()).Stays P (Q₁ call) :=
        .bind (hw call callId [userId]) fun _ => Prog.stays_ret _
      refine .ite (fun _ => hwithdrawn) fun _ => ?_
      refine (hpass call userId).bind fun _ => .ite (fun _ => ?_) fun _ => hwithdrawn
      exact .bind (hh call callId (some userId)) fun _ => Prog.stays_ret _
    · refine .bind (hc call callId userId) fun _ => .ite (fun _ => ?_) fun _ => ?_
      · exact .bind (ht call callId _) fun _ => Prog.stays_ret _
      · refine (hend call _ ?_).bind fun _ => hh call callId (some userId)
        dsimp only
        split <;> exact nofun

theorem handleCallRejected_stays (h : Ends P Q)
    (hpass : ∀ (call : Call) (agentId : Nat), (passOffer call agentId .declined).Stays P Q)
    (hw : ∀ c agentIds, P.Keeps Q (.emit (.offerWithdrawn c agentIds)))
    (hc : ∀ c a, P.Keeps Q (.updateCall c (.assignCallToAgentIfEligible a)))
    (ht : ∀ c text, P.Keeps Q (.emit (.callError c text)))
    (hh : ∀ c a, P.Keeps Q (.emit (.callHandled c a))) (callId userId : Nat) :
    (handleCallRejected callId userId).Stays P Q := by
  have hfind : P.Keeps Q (.query (.findById callId)) := h.read (.findById callId) trivial
  exact handleCallRejected_takes _ (fun q hq => ⟨(hfind q hq).1, (hfind q hq).2 none, fun call => (hfind q hq).2 (some call)⟩)
    (fun _ _ => id) (fun _ => h.toRoutes) (fun _ opts _ => h.endCall _ opts) hpass (fun _ => hw) (fun _ => hc)
    (fun _ => ht) fun _ => hh

section handingOver

variable (ho : ∀ s : Stmt, s.HandingOver → P.Keeps Q s)
include ho

theorem dropOldAgent_stays (callId : Nat) (oldAgentId : Option Nat) :
    (dropOldAgent callId oldAgentId).Stays P Q := by
  cases oldAgentId with
  | none => exact Prog.stays_ret _
  | some oldAgentId =>
    refine .bind (ho (.record (.leaveParticipant _ _)) trivial) fun _ => ?_
    refine (releaseAgent_stays (ho (.updateAgent _ (.releaseFromCall _)) trivial)
      (fun h => absurd h (by decide))).bind fun _ => ?_
    exact ho (.media callId (.dropAgent _)) trivial

theorem handOver_stays (callId : Nat) (call : Call) (newAgentId : Nat) (queueId : Option Nat)
    (hd : (MediaLegs.offerAgent callId >>= fun sdpOffer =>
      emit (.callIncoming callId (some newAgentId) [] (some sdpOffer))).Stays P Q) :
    (handOver callId call newAgentId queueId).Stays P Q := by
  have hqueue : (moveToQueueOf callId call.queueId queueId).Stays P Q := by
    cases queueId with
    | none => exact Prog.stays_ret _
    | some queueId =>
      exact .ite (fun _ => .bind (ho (.updateCall callId (.updateQueue queueId)) trivial)
        fun _ => Prog.stays_ret _) fun _ => Prog.stays_ret _
  have hstart : (startHandover callId call.status newAgentId).Stays P Q :=
    .ite (fun _ => .bind (ho (.updateCall callId (.markHandoverOffered newAgentId)) trivial)
      fun _ => Prog.stays_ret _) fun _ => Prog.stays_ret _
  exact hqueue.bind fun _ => hstart.bind fun _ => (dropOldAgent_stays ho _ _).bind fun _ => hd

end handingOver

section transfer

variable (hl : Looks P Q) (ht : ∀ s : Stmt, s.Transferring ∨ s.Offering → P.Keeps Q s)
include hl ht

theorem claimMemberForTransfer_stays (queue : Queue) (callId : Nat) (excludeAgentId : Option Nat) :
    (QueueRouter.claimMemberForTransfer queue callId excludeAgentId).Stays P Q := by
  refine .bind (hl.read _ trivial) fun members => (hl.ordered _ _ _).bind fun candidates => ?_
  refine (claimInOrder_stays (fun agentId => ?_) candidates).bind fun _ => Prog.stays_ret _
  exact .bind (ht (.updateAgent agentId (.claimAgentForCall callId)) (.inl (.inr trivial))) fun _ => Prog.stays_ret _

theorem resolveTransferTarget_stays (callId tenantId : Nat) (request : TransferRequest)
    (excludeAgentId : Option Nat) :
    (resolveTransferTarget callId tenantId request excludeAgentId).Stays P Q := by
  cases request with
  | toQueue queueId =>
    refine .bind (hl.read _ trivial) fun queue => ?_
    cases queue with
    | none => exact Prog.stays_ret _
    | some queue =>
      refine .ite (fun _ => Prog.stays_ret _) fun _ => ?_
      exact (claimMemberForTransfer_stays hl ht _ _ _).bind fun _ => Prog.stays_ret _
  | toAgent agentId =>
    refine .bind (hl.read _ trivial) fun target => ?_
    cases target with
    | none => exact Prog.stays_ret _
    | some target =>
      refine .ite (fun _ => Prog.stays_ret _) fun _ => ?_
      refine .bind (ht (.updateAgent agentId (.claimAgentForCall callId)) (.inl (.inr trivial))) fun _ => ?_
      exact .ite (fun _ => Prog.stays_ret _) fun _ => Prog.stays_ret _

omit hl in
theorem moveCall_stays (callId : Nat) (oldAgentId : Option Nat) (newAgentId : Nat) :
    (moveCall callId oldAgentId newAgentId).Stays P Q := by
  cases oldAgentId with
  | none => exact ht (.updateCall callId (.assignCallToAgentIfUnassigned _)) (.inl (.inr trivial))
  | some _ => exact ht (.updateCall callId (.updateCallAgentIfCurrent _ _)) (.inl (.inr trivial))

omit ht in
theorem findAgentIf_stays (agentId : Option Nat) : (findAgentIf agentId).Stays P Q := by
  cases agentId with
  | none => exact Prog.stays_ret _
  | some agentId => exact hl.read _ trivial

theorem handleCallTransferred_stays (callId tenantId : Nat) (request : TransferRequest) (assignorId : Option Nat) :
    (handleCallTransferred callId tenantId request assignorId).Stays P Q := by
  refine .bind (hl.read _ trivial) fun call => ?_
  cases call with
  | none => exact Prog.stays_ret _
  | some call =>
    refine .ite (fun _ => Prog.stays_ret _) fun _ => ?_
    refine (findAgentIf_stays hl _).bind fun _ => (findAgentIf_stays hl _).bind fun _ => ?_
    refine (resolveTransferTarget_stays hl ht _ _ _ _).bind fun target => ?_
    rcases target with _ | ⟨newAgentId, queueId⟩
    · exact Prog.stays_ret _
    · refine .ite (fun _ => Prog.stays_ret _) fun _ => (moveCall_stays ht _ _ _).bind fun _ => ?_
      refine .ite (fun _ => ?_) fun _ => ?_
      · refine handOver_stays (fun s hs => ht s (.inl (.inl hs))) _ _ _ _ ?_
        exact (MediaLegs.offerAgent_stays (fun s hs => ht s (.inr hs.offering)) callId).bind fun _ =>
          ht (.emit (.callIncoming _ _ _ _)) (.inr trivial)
      · exact (releaseAgent_stays (ht (.updateAgent _ (.releaseFromCall _)) (.inl (.inl trivial)))
          (fun h => absurd h (by decide))).bind fun _ => Prog.stays_ret _

end transfer

end Callio
