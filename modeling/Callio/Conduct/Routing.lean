import Callio.Core.Routing
import Callio.Concurrency.Protocol

/-! What routing does, for any protocol. A protocol whose phases allow
routing's statements, and an offer made and delivered, allows routing whole. -/

namespace Callio

open Concurrency Code

/-! ## Statements -/

/-- Statements that look for an agent, and count the offers missed. -/
@[simp] def Stmt.Routing : Stmt → Prop
  | query (.storedAgentOffer _) | query (.hasAgentOffer _) | query .findExpiredWaits => False
  | query _ | reconcileQueueOrder _ _ | claimAgentAndAssignCall _ _ false | incrementMissed _ => True
  | record (.clearMissed _) | record (.resetMissedStreak _) => True
  | updateAgent _ (.updateAgentAvailability _) => True
  | _ => False

/-- Statements that look for an agent. -/
@[simp] def Stmt.Seeking : Stmt → Prop
  | query (.storedAgentOffer _) | query (.hasAgentOffer _) | query .findExpiredWaits => False
  | query _ | reconcileQueueOrder _ _ | claimAgentAndAssignCall _ _ false => True
  | record (.clearMissed _) => True
  | _ => False

/-- Statements that look for an agent, and neither read a call's history nor claim. -/
@[simp] def Stmt.Looking : Stmt → Prop
  | query (.storedAgentOffer _) | query (.hasAgentOffer _) | query .findExpiredWaits => False
  | query (.declined _) | query (.missed _) => False
  | query _ | reconcileQueueOrder _ _ | record (.clearMissed _) => True
  | _ => False

theorem Stmt.Looking.seeking {s : Stmt} (h : s.Looking) : s.Seeking := by
  cases s with
  | query q => cases q <;> trivial
  | record op => cases op <;> trivial
  | reconcileQueueOrder _ _ => trivial
  | _ => cases h

/-- Statements that start an agent's count anew, or take them off their shift. -/
@[simp] def Stmt.Resetting : Stmt → Prop
  | record (.resetMissedStreak _) | updateAgent _ (.updateAgentAvailability _) => True
  | _ => False

theorem Stmt.routing_iff (s : Stmt) :
    s.Routing ↔ s.Seeking ∨ s.Resetting ∨ ∃ a, s = incrementMissed a := by
  cases s with
  | query q => cases q <;> simp
  | updateAgent a u => cases u <;> simp
  | claimAgentAndAssignCall a c anyShift => cases anyShift <;> simp
  | record op => cases op <;> simp
  | _ => simp

/-- Statements that make an agent's leg. -/
@[simp] def Stmt.MakingLeg : Stmt → Prop
  | query (.storedAgentOffer _) | media _ .offerAgent => True
  | record (.deleteAgentConnection _) | record (.createAgentConnection _ _) => True
  | _ => False

/-- Statements that make an agent's leg and offer it. -/
@[simp] def Stmt.Offering : Stmt → Prop
  | query (.storedAgentOffer _) | media _ .offerAgent => True
  | record (.deleteAgentConnection _) | record (.createAgentConnection _ _) => True
  | emit (.callIncoming _ _ _ _) => True
  | _ => False

theorem Stmt.MakingLeg.offering {s : Stmt} (h : s.MakingLeg) : s.Offering := by
  cases s with
  | query q => cases q <;> trivial
  | record op => cases op <;> trivial
  | media c op => cases op <;> trivial
  | _ => cases h

variable {P : Protocol Stmt.Res} {Q : P.Phase → Prop}

namespace QueueRouter

theorem getQueue_stays (h : ∀ queueId, P.Keeps Q (.query (.findQueue queueId)))
    (queueId : Option Nat) : (getQueue queueId).Stays P Q := by
  cases queueId with
  | none => exact Prog.stays_ret _
  | some queueId => exact .bind (h queueId) fun _ => Prog.stays_ret _

theorem ordered_stays {queue : Queue} {strategy : QueueStrategy} {members : List Agent}
    (h : P.Keeps Q (.reconcileQueueOrder queue.id members)) :
    (ordered queue strategy members).Stays P Q :=
  .ite (fun _ => Prog.stays_ret _) fun _ => .call h fun _ => Prog.stays_ret _

theorem isAtCapacity_stays {excludeCallId : Nat}
    (h : ∀ queueId, P.Keeps Q (.query (.countOtherActiveCallsInQueue queueId excludeCallId)))
    (queue : Option Queue) : (isAtCapacity queue excludeCallId).Stays P Q := by
  unfold isAtCapacity
  split
  · exact Prog.stays_ret _
  · rename_i queueId limit _
    exact .ite (fun _ => Prog.stays_ret _) fun _ => .bind (h queueId) fun _ => Prog.stays_ret _

end QueueRouter

theorem updateTimestamp_stays {callId : Nat} {field : TimestampField} {value : Nat}
    (ht : P.Keeps Q (.updateCall callId (.updateTimestamp field value)))
    (hc : P.Keeps Q (.updateCall callId .correctNoAnswerIfAnswered)) :
    (updateTimestamp callId field value).Stays P Q :=
  .bind ht fun _ => .ite (fun _ => .bind hc fun _ => Prog.stays_ret _) fun _ => Prog.stays_ret _

theorem holdForOwnCall_stays {agentId callId : Nat}
    (hh : P.Keeps Q (.updateAgent agentId (.holdForOwnCall callId)))
    (hb : P.Keeps Q (.query (.busyCallId agentId))) : (holdForOwnCall agentId callId).Stays P Q :=
  .bind hh fun _ => .ite (fun _ => Prog.stays_ret _) fun _ => .bind hb fun _ => Prog.stays_ret _

/-! ## An agent looked for -/

theorem MediaLegs.offerAgent_stays (h : ∀ s : Stmt, s.MakingLeg → P.Keeps Q s) (callId : Nat) :
    (MediaLegs.offerAgent callId).Stays P Q :=
  .bind (h (.media callId .offerAgent) trivial) fun _ =>
    .bind (h (.record _) trivial) fun _ => .bind (h (.record _) trivial) fun _ => Prog.stays_ret _

theorem agentOffer_stays (h : ∀ s : Stmt, s.MakingLeg → P.Keeps Q s) (callId : Nat) :
    (agentOffer callId).Stays P Q := by
  refine .bind (h (.query _) trivial) fun stored => ?_
  cases stored with
  | none => exact MediaLegs.offerAgent_stays h callId
  | some sdp => exact Prog.stays_ret _

theorem claimInOrder_stays {claim : Nat → Code Claim} (hc : ∀ a, (claim a).Stays P Q)
    (candidates : List Agent) : (claimInOrder claim candidates).Stays P Q := by
  induction candidates with
  | nil => exact Prog.stays_ret _
  | cons a rest ih =>
    exact .bind (hc a.id) fun _ => .ite (fun _ => Prog.stays_ret _) fun _ =>
      ih.bind fun ⟨_, _⟩ => Prog.stays_ret _

/-- The phases of `Q` allow an agent to be looked for, in no call's history. -/
structure Looks (P : Protocol Stmt.Res) (Q : P.Phase → Prop) : Prop where
  looking : ∀ s : Stmt, s.Looking → P.Keeps Q s

namespace Looks

variable (h : Looks P Q)
include h

theorem read (q : Query) (hq : (Stmt.query q).Looking) : (Code.read q).Stays P Q := h.looking _ hq

theorem getQueue (queueId : Option Nat) : (QueueRouter.getQueue queueId).Stays P Q :=
  QueueRouter.getQueue_stays (fun _ => h.read _ trivial) queueId

theorem ordered (queue : Queue) (strategy : QueueStrategy) (members : List Agent) :
    (QueueRouter.ordered queue strategy members).Stays P Q :=
  QueueRouter.ordered_stays (h.looking _ trivial)

theorem ringAllTargets (queue : Queue) : (QueueRouter.ringAllTargets queue).Stays P Q :=
  .bind (h.read _ trivial) fun _ => Prog.stays_ret _

theorem isAtCapacity (queue : Option Queue) (excludeCallId : Nat) :
    (QueueRouter.isAtCapacity queue excludeCallId).Stays P Q :=
  QueueRouter.isAtCapacity_stays (fun _ => h.read _ trivial) queue

end Looks

/-- Beside looking, an agent is claimed for a call, whatever its history. -/
structure Claims (P : Protocol Stmt.Res) (Q : P.Phase → Prop) : Prop extends Looks P Q where
  claims : ∀ agentId callId : Nat, P.Keeps Q (.claimAgentAndAssignCall agentId callId false)

namespace Claims

variable (h : Claims P Q)
include h

theorem claimForWaitingCall (queue : Queue) (callId : Nat) (members : List Agent) :
    (QueueRouter.claimForWaitingCall queue callId members).Stays P Q := by
  refine (h.ordered queue _ members).bind fun candidates => claimInOrder_stays (fun agentId => ?_) candidates
  exact h.claims agentId callId

theorem claimForNewCall (queue : Queue) (callId : Nat) :
    (QueueRouter.claimForNewCall queue callId).Stays P Q :=
  .ite (fun _ => Prog.stays_ret _) fun _ => .bind (h.read _ trivial) fun _ =>
    .ite (fun _ => Prog.stays_ret _) fun _ => .bind (h.read _ trivial) fun members =>
      (h.claimForWaitingCall queue callId members).bind fun _ => Prog.stays_ret _

end Claims

/-- The phases of `Q` allow a waiting call to be offered. -/
structure Seeks (P : Protocol Stmt.Res) (Q : P.Phase → Prop) : Prop extends Looks P Q where
  drainQueue : ∀ (queue : Queue) (attempts : Nat), (Callio.drainQueue queue attempts).Stays P Q
  offerToAll : ∀ (queue : Queue) (callId : Nat), (Callio.offerToAll queue callId).Stays P Q

/-- The phases of `Q` allow routing, the count of a miss apart. -/
structure Routes (P : Protocol Stmt.Res) (Q : P.Phase → Prop) : Prop extends Seeks P Q where
  resetting : ∀ s : Stmt, s.Resetting → P.Keeps Q s

/-! ## Waiting calls -/

section statements

variable (h : ∀ s : Stmt, s.Seeking ∨ s.Offering → P.Keeps Q s)
include h

theorem Claims.of_keeps : Claims P Q where
  looking s hs := h s (.inl hs.seeking)
  claims agentId callId := h (.claimAgentAndAssignCall agentId callId false) (.inl trivial)

theorem deliverAssignedCall_stays (callId agentId : Nat) : (deliverAssignedCall callId agentId).Stays P Q :=
  (agentOffer_stays (fun s hs => h s (.inr hs.offering)) callId).bind fun _ =>
    h (.emit (.callIncoming callId (some agentId) [] _)) (.inr trivial)

theorem eligible_stays (callId : Nat) (members : List Agent) :
    (OfferHistory.eligible callId members).Stays P Q := by
  refine .bind (h (.query _) (.inl trivial)) fun declined => .bind (h (.query _) (.inl trivial)) fun missed => ?_
  refine .ite (fun _ => Prog.stays_ret _) fun _ => .ite (fun _ => Prog.stays_ret _) fun _ => ?_
  exact .ite (fun _ => .bind (h (.record (.clearMissed callId)) (.inl trivial)) fun _ => Prog.stays_ret _)
    fun _ => Prog.stays_ret _

theorem drainWaiting_stays (queue : Queue) (members : List Agent) (waiting : List Call) :
    (drainWaiting queue members waiting).Stays P Q := by
  induction waiting with
  | nil => exact Prog.stays_ret _
  | cons call rest ih =>
    refine (eligible_stays h call.id members).bind fun eligible => ?_
    refine ((Claims.of_keeps h).claimForWaitingCall queue call.id eligible).bind fun ⟨agent, taken⟩ => ?_
    cases agent with
    | none => exact ih.bind fun ⟨_, _⟩ => Prog.stays_ret _
    | some agent => exact (deliverAssignedCall_stays h call.id agent.id).bind fun _ => Prog.stays_ret _

theorem drainQueue_stays (queue : Queue) (attempts : Nat) : (drainQueue queue attempts).Stays P Q := by
  induction attempts with
  | zero => exact Prog.stays_ret _
  | succ attempts ih =>
    refine .bind (h (.query _) (.inl trivial)) fun members => .ite (fun _ => Prog.stays_ret _) fun _ => ?_
    refine .bind (h (.query _) (.inl trivial)) fun waiting => ?_
    exact (drainWaiting_stays h queue members waiting).bind fun ⟨_, _⟩ =>
      .ite (fun _ => Prog.stays_ret _) fun _ => ih

theorem offerToAll_stays (queue : Queue) (callId : Nat) : (offerToAll queue callId).Stays P Q := by
  have hl : Looks P Q := (Claims.of_keeps h).toLooks
  refine .bind (hl.read _ trivial) fun call => ?_
  cases call with
  | none => exact Prog.stays_ret _
  | some _ =>
    refine (hl.ringAllTargets queue).bind fun targets => (eligible_stays h callId targets).bind fun offered => ?_
    refine .ite (fun _ => Prog.stays_ret _) fun _ => ?_
    exact (agentOffer_stays (fun s hs => h s (.inr hs.offering)) callId).bind fun _ =>
      h (.emit (.callIncoming callId none _ _)) (.inr trivial)

theorem Seeks.of_keeps : Seeks P Q where
  toLooks := (Claims.of_keeps h).toLooks
  drainQueue := drainQueue_stays h
  offerToAll := offerToAll_stays h

end statements

theorem Routes.of_keeps (h : ∀ s : Stmt, s.Routing ∨ s.Offering → P.Keeps Q s) : Routes P Q where
  toSeeks := .of_keeps fun s hs => h s (hs.imp_left fun hs => s.routing_iff.mpr (.inl hs))
  resetting s hs := h s (.inl (s.routing_iff.mpr (.inr (.inl hs))))

namespace Seeks

variable (h : Seeks P Q)
include h

theorem drainQueues (queueIds : List Nat) : (Callio.drainQueues queueIds).Stays P Q := by
  induction queueIds with
  | nil => exact Prog.stays_ret _
  | cons queueId rest ih =>
    refine (h.getQueue (some queueId)).bind fun queue => ?_
    cases queue with
    | none => exact ih
    | some queue =>
      exact .ite (fun _ => (h.drainQueue queue _).bind fun _ => ih) fun _ => ih

theorem assignOldestUnassignedCall (tenantId : Nat) :
    (Callio.assignOldestUnassignedCall tenantId).Stays P Q :=
  .bind (h.read _ trivial) fun queueIds => h.drainQueues queueIds

theorem routeWaitingCall (callId : Nat) (queueId : Option Nat) :
    (Callio.routeWaitingCall callId queueId).Stays P Q := by
  refine (h.getQueue queueId).bind fun queue => ?_
  cases queue with
  | none => exact Prog.stays_ret _
  | some queue =>
    exact .ite (fun _ => h.offerToAll queue callId) fun _ =>
      (h.drainQueue queue _).bind fun _ => Prog.stays_ret _

/-- A transferred call is assigned without a look at its history, or offered to all. -/
theorem assignTransferredCall {Q₀ : P.Phase → Prop} (hle : ∀ q, Q₀ q → Q q) (hc : Claims P Q₀)
    (hd : ∀ callId agentId, (deliverAssignedCall callId agentId).Stays P Q₀) (callId tenantId : Nat)
    (queueId : Option Nat) (target : TransferTarget) :
    (Callio.assignTransferredCall callId tenantId queueId target).Takes P Q₀ Q := by
  cases target with
  | agent agentId =>
    refine .bind (hc.read _ trivial) fun candidate => ?_
    cases candidate with
    | none => exact Prog.takes_ret hle _
    | some candidate =>
      refine .ite (fun _ => .call (hc.claims candidate.id callId) fun _ => ?_) fun _ => Prog.takes_ret hle _
      exact .ite (fun _ => (hd callId candidate.id).mono hle) fun _ => Prog.takes_ret hle _
  | queue targetId =>
    refine (hc.getQueue _).bind fun queue => ?_
    cases queue with
    | none => exact Prog.takes_ret hle _
    | some queue =>
      refine .ite (fun _ q hq => h.offerToAll queue callId q (hle q hq)) fun _ =>
        .bind (hc.read _ trivial) fun members => ?_
      refine (hc.claimForWaitingCall queue callId members).bind fun ⟨agent, _⟩ => ?_
      cases agent with
      | none => exact Prog.takes_ret hle _
      | some agent => exact (hd callId agent.id).mono hle

end Seeks

/-- The count itself leads from the phases `Q` to `Q'`. -/
theorem recordMiss_takes {Q' : P.Phase → Prop} {callId tenantId agentId : Nat} {queueId : Option Nat}
    {anyQueue : Bool} (h : Seeks P Q) (hle : ∀ q, Q q → Q' q)
    (hi : (Prog.cmd (Stmt.incrementMissed agentId) : Code Nat).Takes P Q Q')
    (ha : P.Keeps Q' (.updateAgent agentId (.updateAgentAvailability .offline)))
    (hs : P.Keeps Q' (.record (.resetMissedStreak agentId))) :
    (recordMiss callId tenantId queueId agentId anyQueue).Takes P Q Q' := by
  have hret : ∀ b : Bool, (pure b : Code Bool).Takes P Q Q' := fun b => Prog.takes_ret hle b
  refine (h.getQueue queueId).bind fun queue => .ite (fun _ => hret _) fun _ => ?_
  refine Prog.Takes.bind (h.read (.autoOffline tenantId) trivial) fun threshold => ?_
  cases threshold with
  | none => exact hret _
  | some threshold =>
    refine Prog.Takes.bind (h.read (.hasAgentActiveCall agentId callId) trivial) fun _ => ?_
    refine .ite (fun _ => hret _) fun _ => hi.bind fun _ => .ite (fun _ => Prog.stays_ret _) fun _ => ?_
    exact Prog.Takes.bind (Prog.stays_cmd ha) fun _ =>
      Prog.Takes.bind (Prog.stays_cmd hs) fun _ => Prog.stays_ret _

theorem Routes.recordMiss (h : Routes P Q) (hc : ∀ a, P.Keeps Q (.incrementMissed a))
    (callId tenantId : Nat) (queueId : Option Nat) (agentId : Nat) (anyQueue : Bool) :
    (Callio.recordMiss callId tenantId queueId agentId anyQueue).Stays P Q :=
  recordMiss_takes h.toSeeks (fun _ hq => hq) (hc agentId)
    (h.resetting (.updateAgent agentId (.updateAgentAvailability .offline)) trivial)
    (h.resetting (.record (.resetMissedStreak agentId)) trivial)

end Callio
