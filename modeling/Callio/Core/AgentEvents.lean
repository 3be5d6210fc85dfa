import Callio.Core.Termination

/-! An agent's side of a call: accepting an offer (`handleAgentJoined`),
reconnecting, declining (`RejectionEventHandler`), and taking over a live call
(`TransferEventHandler`). What a client sends and whether audio or the
provider answers in time are parameters. -/

namespace Callio

open Code

/-! ## Accepting -/

/-- What an accept throws. -/
inductive AcceptError
  | queueAtLimit
  | agentOnCall
  | ownershipChanged
  | transferNotYours
  | noAgentLeg
  | noMicrophoneAudio
  | customerOfferMissing
  | acceptFailed
  | alreadyEnded (status : CallStatus)
  | statusChanged (status : Option CallStatus)
  deriving DecidableEq, Repr

def CallStatus.text : CallStatus → String
  | .initiated => "INITIATED"
  | .ringing => "RINGING"
  | .inProgress => "IN_PROGRESS"
  | .terminated => "TERMINATED"
  | .failed => "FAILED"

def AcceptError.message : AcceptError → String
  | queueAtLimit => "The queue is at its active-call limit."
  | agentOnCall => "Agent already has an active call."
  | ownershipChanged => "Call assignment conflict. Call ownership changed."
  | transferNotYours => "Call assignment conflict. The transfer is no longer yours."
  | noAgentLeg => "No agent leg offered on this worker"
  | noMicrophoneAudio => "Microphone audio did not reach the server within 5s"
  | customerOfferMissing => "Customer offer not found"
  | acceptFailed => "The provider refused the accept"
  | alreadyEnded status => "Call already " ++ status.text.toLower ++ ", cannot accept"
  | statusChanged status =>
    "Call status changed to " ++ (status.map CallStatus.text).getD "null" ++
      " before accept could complete"

structure Accept where
  callId : Nat
  userId : Nat
  tenantId : Nat := 1
  sdpAnswer : Sdp
  /-- The microphone's audio reaches the server in time. -/
  audio : Bool := true
  /-- The provider takes the accept. -/
  providerAccepts : Bool := true
  deriving DecidableEq, Repr

namespace Accept

/-- A second call, or one past its queue's capacity, is refused. -/
def checkCapacity (a : Accept) : Code (Except AcceptError (Option Call × Option Queue)) := do
  let callQueueRow ← read (.findById a.callId)
  let callQueue ← QueueRouter.getQueue (callQueueRow.bind (·.queueId))
  if ← QueueRouter.isAtCapacity callQueue a.callId then return .error .queueAtLimit
  if ← read (.hasAgentActiveCall a.userId a.callId) then return .error .agentOnCall
  return .ok (callQueueRow, callQueue)

/-- The claim, before anything is done with the leg. `holdForOwnCall`'s answer
only decides what is broadcast. -/
def claim (a : Accept) (preGateStatus : CallStatus) : Code (Except AcceptError Unit) := do
  if preGateStatus = .ringing then
    if !(← update a.callId (.assignCallToAgentIfEligible a.userId)) then
      return .error .ownershipChanged
    let _ ← read (.busyCallId a.userId)
    let _ ← holdForOwnCall a.userId a.callId
    return .ok ()
  else
    if ← update a.callId (.claimHandover a.userId) then return .ok ()
    return .error .transferNotYours

/-- `#abortAcceptOnMediaFailure`: the call ends FAILED. -/
def abortOnMediaFailure (a : Accept) : Code Unit := do
  match ← read (.findById a.callId) with
  | none => return ()
  | some call =>
    let call := { call with agentId := call.agentId.or (some a.userId) }
    let _ ← CallTerminator.endCall call
      { reason := .agentMediaNotReady, terminatedBy := .system, failure := true,
        provider := .terminate }
    return ()

/-- The agent's answer: applied to the leg pending now. -/
def applyAnswer (a : Accept) : Code (Except AcceptError Unit) := do
  match ← media a.callId (.agentAccepted a.userId a.sdpAnswer a.audio) with
  | .noLeg => return .error .noAgentLeg
  | .noAudio =>
    abortOnMediaFailure a
    return .error .noMicrophoneAudio
  | .ok => return .ok ()

/-- The customer has not been answered before: their leg is answered and the
provider told. -/
def answerCustomer (a : Accept) : Code (Except AcceptError Unit) := do
  if !(← read (.customerOffer a.callId)) then return .error .customerOfferMissing
  media a.callId .answerCustomer
  Code.provider a.callId .accept
  if !a.providerAccepts then return .error .acceptFailed
  match ← read (.getStatus a.callId) with
  | some .terminated => return .error (.alreadyEnded .terminated)
  | some .failed => return .error (.alreadyEnded .failed)
  | _ => return .ok ()

/-- Moves a ringing call to IN_PROGRESS. `callRecord` was read after the media
was up. -/
def connectCall (a : Accept) (callRecord : Call) : Code (Except AcceptError Unit) := do
  if !(← update a.callId (.assignCallToAgentIfEligible a.userId)) then
    return .error .ownershipChanged
  if !(← update a.callId (.transitionStatus .ringing .inProgress)) then
    return .error (.statusChanged (← read (.getStatus a.callId)))
  let _ ← update a.callId (.updateState (some .active))
  -- a handover that came back to the queue keeps the time it was first answered
  if callRecord.answeredAt.isNone || callRecord.ivrFlowId.isSome then
    updateTimestamp a.callId .answeredAt (← read .now)
  return .ok ()

/-- After the media: a call still ringing is answered and connected. -/
def answerRinging (a : Accept) (callRecord : Call) : Code (Except AcceptError Unit) := do
  if callRecord.ivrFlowId.isNone && callRecord.answeredAt.isNone then
    match ← answerCustomer a with
    | .error err => return .error err
    | .ok () => connectCall a callRecord
  else connectCall a callRecord

/-- After the media, from the row as read then. -/
def answerRecord (a : Accept) : Option Call → Code (Except AcceptError Unit)
  | none => return .ok ()
  | some callRecord =>
    if callRecord.status = .ringing then answerRinging a callRecord else return .ok ()

/-- The agent talks to the customer. -/
def connected (a : Accept) : Code Unit := do
  media a.callId .bridge
  record (.joinParticipant a.callId a.userId)
  record (.logAccepted a.callId)
  record (.resetMissedStreak a.userId)
  emit (.callHandled a.callId (some a.userId))

/-- The claim holds: the agent's answer is applied and the customer answered. -/
def joinClaimed (a : Accept) : Code (Except AcceptError Unit) := do
  match ← applyAnswer a with
  | .error err => return .error err
  | .ok () =>
    match ← answerRecord a (← read (.findById a.callId)) with
    | .error err => return .error err
    | .ok () =>
      connected a
      return .ok ()

/-- The body of the accept. -/
def join (a : Accept) : Code (Except AcceptError Unit) := do
  match ← checkCapacity a with
  | .error err => return .error err
  | .ok _ =>
    let preGateStatus ← read (.getStatus a.callId)
    if preGateStatus ≠ some .ringing && preGateStatus ≠ some .inProgress then return .ok ()
    match ← claim a (preGateStatus.getD .ringing) with
    | .error err => return .error err
    | .ok () => joinClaimed a

/-- A failed accept releases the agent if the call is over; otherwise the
error goes to the socket. -/
def cleanUp (a : Accept) (err : AcceptError) : Code Unit := do
  match ← read (.findById a.callId) with
  | none => emit (.callError a.callId err.message)
  | some call =>
    if call.ended then
      let _ ← releaseAgent a.userId a.callId
      assignOldestUnassignedCall call.tenantId
      emit (.callError a.callId "This call has already ended.")
    else emit (.callError a.callId err.message)

end Accept

/-- `handleAgentJoined`. -/
def handleAgentJoined (a : Accept) : Code Unit := do
  if !(← read (.hasAgentOffer a.callId)) then return ()
  match ← a.join with
  | .ok () => return ()
  | .error .agentOnCall =>
    emit (.callError a.callId "Unable to accept: you are already on an active call.")
  | .error .ownershipChanged | .error .transferNotYours =>
    emit (.callError a.callId "This call was already answered by another agent.")
  | .error err => a.cleanUp err

/-! ## Reconnecting -/

/-- `handleRingingAgentReconnect`: a fresh leg replaces the one offered before. -/
def handleRingingAgentReconnect (callId : Nat) : Code Unit := do
  match ← read (.findById callId) with
  | none => return ()
  | some _ =>
    let sdpOffer ← MediaLegs.offerAgent callId
    emit (.ringingReconnectDeliver callId sdpOffer)

/-- `getUserActiveCall`. -/
def Call.isActiveFor (call : Call) (tenantId agentId : Nat) : Bool :=
  call.tenantId = tenantId && call.agentId = some agentId &&
    ((call.status = .inProgress && call.state = some .active) ||
      ((call.status = .initiated || call.status = .ringing) && call.direction = .outbound) ||
      (call.status = .ringing && call.direction = .inbound))

/-- `handleAgentReconnected`: without an offer of the agent's, one is made. -/
def handleAgentReconnected (callId userId tenantId : Nat) (withOffer : Bool) : Code Unit := do
  match ← read (.findById callId) with
  | none => return ()
  | some call =>
    if !call.isActiveFor tenantId userId then return ()
    if withOffer then
      let _ ← MediaLegs.answerAgent callId userId
      media callId .bridge
      emit (.callReconnected callId userId none)
    else
      let offer ← MediaLegs.offerAgent callId
      emit (.callReconnected callId userId (some offer))

/-- `handleReconnectAnswered`: the agent's answer to that offer. -/
def handleReconnectAnswered (a : Accept) : Code Unit := do
  match ← read (.findById a.callId) with
  | none => return ()
  | some call =>
    if !call.isActiveFor a.tenantId a.userId then return ()
    if !(← read (.hasAgentOffer a.callId)) then return ()
    match ← media a.callId (.agentAccepted a.userId a.sdpAnswer a.audio) with
    | .ok => media a.callId .bridge
    | _ => return ()

/-! ## Declining -/

/-- `handleCallRejected`. -/
def handleCallRejected (callId userId : Nat) : Code Unit := do
  match ← read (.findById callId) with
  | none => return ()
  | some call =>
    if call.status ≠ .ringing && call.status ≠ .initiated then return ()
    let queue ← QueueRouter.getQueue call.queueId
    let inboundRinging := call.direction = .inbound && call.status = .ringing
    let ringAll := queue.any (·.isRingAll)
    -- a RING_ALL call nobody has taken: dismissed for this agent only
    if inboundRinging && call.agentId.isNone && ringAll then return ()
    if inboundRinging && queue.isSome && !ringAll then
      if call.agentId ≠ some userId then
        emit (.offerWithdrawn callId [userId])
      else if ← passOffer call userId .declined then
        emit (.callHandled callId (some userId))
      else emit (.offerWithdrawn callId [userId])
      return ()
    -- no queue to pass it on to: the call itself is declined
    if !(← update callId (.assignCallToAgentIfEligible userId)) then
      emit (.callError callId "This call was already handled by another agent.")
      return ()
    let _ ← CallTerminator.endCall { call with agentId := some userId }
      { reason := .rejected, terminatedBy := .agent,
        provider := if call.ivrFlowId.isSome then .terminate else .reject }
    emit (.callHandled callId (some userId))

/-! ## Transferring -/

inductive TransferRequest
  | toAgent (agentId : Nat)
  | toQueue (queueId : Nat)
  deriving DecidableEq, Repr

/-- Claims the target agent for the call, on shift and not busy. The second
part: the queue it came from. -/
def resolveTransferTarget (callId tenantId : Nat) (request : TransferRequest)
    (excludeAgentId : Option Nat) : Code (Option (Nat × Option Nat)) := do
  match request with
  | .toQueue queueId =>
    match ← read (.findQueue queueId) with
    | none => return none
    | some queue =>
      if queue.tenantId ≠ tenantId || !queue.active then return none
      let agent ← QueueRouter.claimMemberForTransfer queue callId excludeAgentId
      return agent.map fun agent => (agent.id, some queue.id)
  | .toAgent agentId =>
    match ← read (.findAgent agentId) with
    | none => return none
    | some target =>
      if target.tenantId ≠ tenantId then return none
      if ← updateAgent agentId (.claimAgentForCall callId) then return some (agentId, none)
      return none

/-- The guarded move: from the agent the row was read with, or from nobody. -/
def moveCall (callId : Nat) (oldAgentId : Option Nat) (newAgentId : Nat) : Code Bool :=
  match oldAgentId with
  | none => update callId (.assignCallToAgentIfUnassigned newAgentId)
  | some oldAgentId => update callId (.updateCallAgentIfCurrent (some oldAgentId) newAgentId)

def moveToQueueOf (callId : Nat) (fromQueueId : Option Nat) : Option Nat → Code Unit
  | none => return ()
  | some queueId => do
    if fromQueueId ≠ some queueId then let _ ← update callId (.updateQueue queueId)

/-- The target of a live call's transfer must accept within the timeout. -/
def startHandover (callId : Nat) (status : CallStatus) (newAgentId : Nat) : Code Unit := do
  if status = .inProgress then let _ ← update callId (.markHandoverOffered newAgentId)

def dropOldAgent (callId : Nat) : Option Nat → Code Unit
  | none => return ()
  | some oldAgentId => do
    record (.leaveParticipant callId oldAgentId)
    let _ ← releaseAgent oldAgentId callId
    media callId (.dropAgent oldAgentId)

/-- The call is the new agent's: the old one leaves and a leg is offered.
`call` was read before the move. -/
def handOver (callId : Nat) (call : Call) (newAgentId : Nat) (queueId : Option Nat) : Code Unit := do
  moveToQueueOf callId call.queueId queueId
  startHandover callId call.status newAgentId
  dropOldAgent callId call.agentId
  let sdpOffer ← MediaLegs.offerAgent callId
  emit (.callIncoming callId (some newAgentId) [] (some sdpOffer))

def findAgentIf : Option Nat → Code (Option Agent)
  | none => return none
  | some agentId => read (.findAgent agentId)

/-- `handleCallTransferred`. Where it throws it stops. -/
def handleCallTransferred (callId tenantId : Nat) (request : TransferRequest) (assignorId : Option Nat := none) :
    Code Unit := do
  match ← read (.findById callId) with
  | none => return ()
  | some call =>
    if call.tenantId ≠ tenantId then return ()
    let _ ← findAgentIf call.agentId
    let _ ← findAgentIf assignorId
    match ← resolveTransferTarget callId tenantId request call.agentId with
    | none => return ()
    | some (newAgentId, queueId) =>
      -- "Call is already assigned to this agent"
      if call.agentId = some newAgentId then return ()
      if ← moveCall callId call.agentId newAgentId then handOver callId call newAgentId queueId
      else
        let _ ← releaseAgent newAgentId callId
        return ()

end Callio
