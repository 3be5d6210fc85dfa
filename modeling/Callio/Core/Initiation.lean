import Callio.Core.Ingress

/-! Outbound calls (`InitiationEventHandler`): the consumer's intent, the agent
connecting with call:start, and the customer dialled. -/

namespace Callio

open Code

structure OutboundIntent where
  line : Line
  agentId : Nat
  customerAddress : Nat
  deriving DecidableEq, Repr

/-- `createOutboundIntent`, for a line and an agent of the tenant. -/
def createOutboundIntent (i : OutboundIntent) : Code Unit := do
  if i.line.ownerAgentId.any (· ≠ i.agentId) then return ()
  if ← read (.hasAgentActiveCall i.agentId 0) then return ()
  let _ ← .cmd (Stmt.createCall
    { tenantId := i.line.tenantId, channelId := i.line.id, channel := i.line.type,
      agentId := some i.agentId, customerAddress := some i.customerAddress,
      direction := .outbound, status := .initiated })

/-- `handleCallStart`. -/
def handleCallStart (callId userId tenantId : Nat) : Code Unit := do
  match ← read (.findById callId) with
  | none => return ()
  | some call =>
    if call.tenantId ≠ tenantId || call.direction ≠ .outbound || call.agentId ≠ some userId ||
        call.status ≠ .initiated then return ()
    if !(← read (.participants callId)).isEmpty then return ()
    if !(← holdForOwnCall userId callId) then return ()
    updateTimestamp callId .ringingAt (← read .now)
    let _ ← MediaLegs.answerAgent callId userId
    record (.joinParticipant callId userId)

/-- `triggerCustomerConnection`: the provider's call id, or the dial failed. -/
def triggerCustomerConnection (callId : Nat) (providerCallId : Option Nat) : Code Unit := do
  -- the agent leg is not on this worker
  if !(← read (.ownsMedia callId)) then return ()
  let _ ← read (.findById callId)
  media callId .offerCustomer
  Code.provider callId .initiate
  match providerCallId with
  | some providerCallId =>
    let _ ← update callId (.updateProviderCallId providerCallId)
  | none =>
    emit (.callError callId "Dialing the customer failed")
    let _ ← CallTerminator.endById callId
      { reason := .providerTriggerFailed, terminatedBy := .provider, failure := true }

end Callio
