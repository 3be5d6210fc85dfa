import Callio.Core.Termination

/-! `ChannelIngress`: what the customer's provider reports about a call. What
the outside decides (the consumer's lookup, whether an IVR flow's trigger
holds, whether the owner can be reached, whether the provider takes an accept)
is a parameter. -/

namespace Callio

open Code

/-- A `channels` row, as far as its inbound calls read it. -/
structure Line where
  id : Nat
  tenantId : Nat := 1
  type : Channel := .whatsapp
  inboundQueueId : Option Nat := none
  ownerAgentId : Option Nat := none
  deriving DecidableEq, Repr

def Line.key (line : Line) (providerCallId : Nat) : ProviderKey := ⟨line.type, providerCallId⟩

/-- A call row may only be touched by events for its own line. -/
def Line.owns (line : Line) (call : Call) : Bool := call.channelId = line.id

/-! ## Inbound call offered -/

structure InboundOffer where
  providerCallId : Nat
  customerAddress : Option Nat := none
  offeredAt : Option Nat := none
  deriving DecidableEq, Repr

structure InboundOutcome where
  lookupRejects : Bool := false
  ivrFlowId : Option Nat := none
  ownerReachable : Bool := true
  providerAccepts : Bool := true
  deriving DecidableEq, Repr

inductive Route
  | owner (agentId : Nat)
  | ivr (flowId : Nat)
  | queue (queue : Queue)
  | nowhere
  deriving DecidableEq, Repr

def InboundRouter.route (line : Line) (ivrFlowId : Option Nat) : Code Route := do
  match line.ownerAgentId with
  | some ownerAgentId =>
    match ← read (.findAgent ownerAgentId) with
    | some owner => return .owner owner.id
    | none => return .nowhere
  | none =>
    let queue ← QueueRouter.getQueue line.inboundQueueId
    match ivrFlowId, queue with
    | some flowId, _ => return .ivr flowId
    | none, some queue => return .queue queue
    | none, none => return .nowhere

/-- The row an inbound call starts from. -/
def baseRow (line : Line) (offer : InboundOffer) (ringingAt : Nat) : CallRow :=
  { tenantId := line.tenantId, channelId := line.id, channel := line.type,
    providerCallId := some offer.providerCallId, queueId := line.inboundQueueId,
    customerAddress := offer.customerAddress, direction := .inbound, status := .ringing,
    ringingAt := some ringingAt }

def routedRow (base : CallRow) (route : Route) : CallRow :=
  match route with
  | .ivr flowId => { base with ivrFlowId := some flowId, state := some .ivr }
  | .queue _ => { base with queuedAt := base.ringingAt }
  | _ => base

/-- No media ever flowed: the call is recorded as instantaneous. -/
def instantaneous (endedAt : Nat) : ProviderTimes :=
  { endedAt := some endedAt, callDuration := some 0, ringingDuration := some 0 }

/-- `settle` given an id. -/
def CallTerminator.settleById (callId : Nat) (reason : TerminationReason)
    (terminatedBy : TerminatedBy) : Code Unit := do
  match ← read (.findById callId) with
  | none => return ()
  | some call => CallTerminator.settle call reason terminatedBy

/-- The provider ended the call before its offer arrived: it is recorded as
missed, and nothing rings. -/
def handleMissedBeforeOffer (key : ProviderKey) (base : CallRow) (ringingAt : Nat)
    (tombstone : Tombstone) : Code Unit := do
  match ← .cmd (Stmt.createCall base) with
  | none => return ()
  | some callId =>
    let endedAt := tombstone.endedAt.getD ringingAt
    if tombstone.failed then
      let _ ← finalizeCallAsFailed callId .provider (instantaneous endedAt)
    else
      let _ ← finalizeFromWebhook callId .cancelled .customer (instantaneous endedAt)
    record (.deleteTombstone key)
    CallTerminator.settleById callId
      (if tombstone.failed then .providerError else .cancelled)
      (if tombstone.failed then .provider else .customer)

/-- A second offer from a customer already on a call: recorded as CANCELLED. -/
def recordDuplicate (base : CallRow) (ringingAt : Nat) : Code Unit := do
  match ← .cmd (Stmt.createCall base) with
  | none => return ()
  | some callId =>
    let _ ← finalizeFromWebhook callId .cancelled .system (instantaneous ringingAt)

def rejectedOptions : EndOptions :=
  { reason := .rejected, terminatedBy := .system, provider := .reject }

/-- Why a personal line's owner missed the call before it rang. -/
inductive LineMiss
  | busy | unreachable
  deriving DecidableEq, Repr

def lineMissed (callId ownerId : Nat) (why : LineMiss) : Code Unit := do
  let _ ← update callId (.assignCallToAgentIfUnassigned ownerId)
  let _ ← CallTerminator.endById callId <|
    match why with
    | .busy => { reason := .busy, terminatedBy := .system, provider := .busy }
    | .unreachable => { reason := .noAnswer, terminatedBy := .system, provider := .reject }

/-- A personal line rang out: the owner didn't answer in time. -/
def lineRingExpired (callId : Nat) : Code Unit := do
  let _ ← CallTerminator.endById callId
    { reason := .noAnswer, terminatedBy := .system, onlyIfStatus := some .ringing,
      provider := .whenUnanswered }

/-- A free member, or the line's owner whatever their shift, takes the call. -/
def claimOnArrival (route : Route) (callId : Nat) (ownerReachable : Bool) :
    Code (Option Nat × Option LineMiss) :=
  match route with
  | .queue queue => do
    let agent ← QueueRouter.claimForNewCall queue callId
    return (agent.map (·.id), none)
  | .owner ownerId => do
    if !ownerReachable then return (none, some .unreachable)
    let claim ← .cmd (Stmt.claimAgentAndAssignCall ownerId callId true)
    if claim.assigned then return (some ownerId, none)
    return (none, some .busy)
  | _ => return (none, none)

/-- IVR: the customer is answered without waiting for an agent. -/
def ivrAutoAccept (callId : Nat) (providerAccepts : Bool) : Code Unit := do
  let answeredAt ← read .now
  media callId .answerCustomer
  Code.provider callId .accept
  if providerAccepts then
    let _ ← update callId .markIvrAutoAccepted
    updateTimestamp callId .answeredAt answeredAt

/-- The first offer of a call that no IVR takes. -/
def offerOnArrival (callId tenantId : Nat) (route : Route) (assigned : Option Nat) : Code Unit := do
  let agentSdpOffer ← MediaLegs.offerAgent callId
  match assigned, route with
  | some agentId, _ => emit (.callIncoming callId (some agentId) [] (some agentSdpOffer))
  | none, .queue queue =>
    if queue.isRingAll then
      let offered ← QueueRouter.ringAllTargets queue
      emit (.callIncoming callId none (offered.map (·.id)) (some agentSdpOffer))
    else assignOldestUnassignedCall tenantId
  | none, _ => assignOldestUnassignedCall tenantId

/-- The call's row exists: claim, re-check the tombstone, then ring. -/
def handleRoutedCall (line : Line) (offer : InboundOffer) (outcome : InboundOutcome)
    (route : Route) (callId ringingAt : Nat) : Code Unit := do
  let key := line.key offer.providerCallId
  let (assigned, miss) ← claimOnArrival route callId outcome.ownerReachable
  record (.createCustomerConnection callId true)
  if outcome.lookupRejects then
    let _ ← CallTerminator.endById callId rejectedOptions
    return ()
  if (← read (.tombstone key)).isSome then
    -- the provider's end landed during setup
    let _ ← finalizeFromWebhook callId .cancelled .customer (instantaneous ringingAt)
    record (.deleteTombstone key)
    CallTerminator.settleById callId .cancelled .customer
    return ()
  match route, miss with
  | .nowhere, _ =>
    let _ ← CallTerminator.endById callId rejectedOptions
    return ()
  | .owner ownerId, some why => lineMissed callId ownerId why
  | .ivr _, _ =>
    ivrAutoAccept callId outcome.providerAccepts
    emit (.callIncoming callId none [] none)
  | route, _ => offerOnArrival callId line.tenantId route assigned

def handleIncomingCall (line : Line) (offer : InboundOffer) (outcome : InboundOutcome) :
    Code Unit := do
  let key := line.key offer.providerCallId
  let ringingAt := offer.offeredAt.getD (← read .now)
  let base := baseRow line offer ringingAt
  match ← read (.tombstone key) with
  | some tombstone => handleMissedBeforeOffer key base ringingAt tombstone
  | none =>
    if (← read (.findActiveInboundByCustomer line.tenantId offer.customerAddress)).isSome then
      recordDuplicate base ringingAt
    else
      let route ← if outcome.lookupRejects then pure .nowhere
        else InboundRouter.route line outcome.ivrFlowId
      match ← .cmd (Stmt.createCall (routedRow base route)) with
      | none => return ()
      | some callId => handleRoutedCall line offer outcome route callId ringingAt

/-- Only the worker that claims the provider call id handles the offer. -/
def inboundCall (line : Line) (offer : InboundOffer) (outcome : InboundOutcome) : Code Unit := do
  let key := line.key offer.providerCallId
  if (← read (.findByProviderCallId key)).isSome then return ()
  if !(← .cmd (Stmt.claimOwnership key)) then return ()
  handleIncomingCall line offer outcome
  let latestCall ← read (.findByProviderCallId key)
  if latestCall.all (·.ended) then record (.releaseOwnership key)

/-! ## Provider status updates

`ringing_duration` and `call_duration` are NOT NULL columns that start at 0, so
what a status handler writes only where one `== null` is never written. -/

inductive ProviderStatus
  | ringing | accepted | rejected | failed
  deriving DecidableEq, Repr

/-- Seconds from `a` to `b`, 0 if `b` is earlier. -/
def secondsBetween (a b : Nat) : Nat := (b - a) / second

/-- RINGING: the provider's time is authoritative. `call` was read before. -/
def providerRinging (call : Call) (at_ : Nat) : Code Unit := do
  updateTimestamp call.id .ringingAt at_
  if !call.ended && call.status = .initiated then
    let _ ← update call.id (.updateStatus .ringing)

def providerAccepted (call : Call) (at_ : Nat) : Code Unit := do
  if call.ringingAt.isNone then updateTimestamp call.id .ringingAt at_
  updateTimestamp call.id .answeredAt at_
  if !call.ended && call.status ≠ .inProgress then
    let _ ← update call.id (.updateStatus .inProgress)
    let _ ← update call.id (.updateState (some .active))
  if call.direction = .outbound then emit (.callHandled call.id call.agentId)

def providerRejected (call : Call) (at_ : Nat) : Code Unit := do
  updateTimestamp call.id .endedAt at_
  if ← update call.id (.terminateCallIfNotTerminated (some .rejected) .customer (some at_) none) then
    CallTerminator.settle call .rejected .customer

/-- FAILED may come beside the end event, or in its place. -/
def providerFailed (call : Call) (at_ : Nat) : Code Unit := do
  if ← finalizeCallAsFailed call.id .provider { endedAt := some at_ } then
    emit (.callError call.id "Call failed (provider status)")
    CallTerminator.settle call .providerError .provider

def statusChanged (line : Line) (providerCallId : Nat) (status : ProviderStatus)
    (at_ : Option Nat) : Code Unit := do
  match ← read (.findByProviderCallId (line.key providerCallId)) with
  | none => return ()
  | some call =>
    if !line.owns call then return ()
    let timestampValue := at_.getD (← read .now)
    match status with
    | .ringing => providerRinging call timestampValue
    | .accepted => providerAccepted call timestampValue
    | .rejected => providerRejected call timestampValue
    | .failed => providerFailed call timestampValue

/-! ## Provider ended the call -/

structure ProviderEnd where
  providerCallId : Nat
  failed : Bool := false
  answeredAt : Option Nat := none
  endedAt : Option Nat := none
  durationSec : Option Nat := none
  /-- The provider reported errors. -/
  errors : Bool := false
  failureTerminatedBy : TerminatedBy := .provider
  deriving DecidableEq, Repr

/-- The provider's timing, completed from the row as it was read at `now`. -/
def ProviderEnd.times (e : ProviderEnd) (call : Call) (now : Nat) : ProviderTimes :=
  let effectiveAnsweredAt := e.answeredAt.or call.answeredAt
  let effectiveEndedAt := (e.endedAt.or call.endedAt).getD now
  let callDuration := e.durationSec.getD <|
    match effectiveAnsweredAt with
    | some answered => secondsBetween answered effectiveEndedAt
    | none => 0
  let ringingDuration :=
    match call.ringingAt, effectiveAnsweredAt with
    | some ringing, some answered => some (secondsBetween ringing answered)
    | some ringing, none => some (secondsBetween ringing (e.endedAt.getD now))
    | none, _ => if !e.failed && e.answeredAt.isNone then some 0 else none
  { endedAt := e.endedAt, answeredAt := e.answeredAt, callDuration := some callDuration,
    ringingDuration }

/-- Highest priority first: the provider failed the call; never answered and
still pre-connect; never answered though we had connected; answered by the IVR
only; completed. -/
def ProviderEnd.reason (e : ProviderEnd) (call : Call) (now : Nat) : TerminationReason :=
  let effectiveEndedAt := (e.endedAt.or call.endedAt).getD now
  let unanswered (waited : Nat) : TerminationReason :=
    if call.direction = .inbound && waited < 5 then .cancelled else .noAnswer
  if e.failed then .providerError
  else if e.answeredAt.isNone then
    if call.status = .initiated || call.status = .ringing then
      unanswered ((e.times call now).ringingDuration.getD 0)
    else if call.status = .inProgress then .cancelled
    else .completed
  else if call.status = .ringing && call.ivrFlowId.isSome then
    unanswered (call.queuedAt.elim 0 fun queuedAt => secondsBetween queuedAt effectiveEndedAt)
  else .completed

/-- Who ended a call its provider reports over. -/
def ProviderEnd.terminatedBy (e : ProviderEnd) : TerminatedBy :=
  if e.failed then .provider else .customer

/-- The guarded write of the end; true if this event caused it. -/
def commitProviderEnd (call : Call) (e : ProviderEnd) (now : Nat) : Code Bool :=
  if e.failed then finalizeCallAsFailed call.id e.terminatedBy (e.times call now)
  else finalizeFromWebhook call.id (e.reason call now) e.terminatedBy (e.times call now)

/-- Already FAILED by a local path: who ended it is patched with whom the
provider blames. -/
def reportFailure (call : Call) (e : ProviderEnd) (finalizedByThisEvent : Bool) : Code Unit := do
  if !e.failed then return ()
  emit (.callError call.id "")
  if !finalizedByThisEvent && e.errors then
    let _ ← update call.id (.updateTerminatedByIfFailed e.failureTerminatedBy)

/-- Never leaves `ended_at` null. -/
def stampEnd (call : Call) (e : ProviderEnd) : Code Unit := do
  if e.endedAt.isNone && call.endedAt.isNone then
    updateTimestamp call.id .endedAt (← read .now)

/-- The customer gave up while it rang this agent: a missed offer. -/
def customerGaveUp (call : Call) (reason : TerminationReason) : Code Unit := do
  if let some agentId := call.agentId then
    if call.direction = .inbound && reason = .noAnswer then
      let _ ← recordMiss call.id call.tenantId call.queueId agentId

/-- The end of a known call: only the event that causes the transition settles. -/
def finishKnownCall (call : Call) (e : ProviderEnd) : Code Unit := do
  let now ← read .now
  let reason := e.reason call now
  let finalizedByThisEvent ← commitProviderEnd call e now
  reportFailure call e finalizedByThisEvent
  stampEnd call e
  if finalizedByThisEvent then
    CallTerminator.settle call reason e.terminatedBy
    customerGaveUp call reason

/-- Looks a second time after 300 ms. -/
def findCallPatiently (key : ProviderKey) : Code (Option Call) := do
  match ← read (.findByProviderCallId key) with
  | some call => return some call
  | none =>
    .cmd (Stmt.wait 300)
    read (.findByProviderCallId key)

/-- `callEnded`. An end that beat its offer leaves a tombstone. -/
def callEnded (line : Line) (e : ProviderEnd) : Code Unit := do
  let key := line.key e.providerCallId
  match ← findCallPatiently key with
  | none => record (.setTombstone key { failed := e.failed, endedAt := e.endedAt })
  | some call => if line.owns call then finishKnownCall call e
  record (.releaseOwnership key)

end Callio
