import Callio.Core.Routing

/-! `CallTerminator`: the one way a call ends. `endCall` commits with a plain
terminate or failure and then settles; `settle` alone is for a caller that
committed with its own finalize. -/

namespace Callio

open Code

/-- What to tell the provider. `whenUnanswered` is the source's 'end'. -/
inductive TellProvider
  | nothing | whenUnanswered | terminate | reject | busy
  deriving DecidableEq, Repr

structure EndOptions where
  reason : TerminationReason
  terminatedBy : TerminatedBy
  /-- End as FAILED instead of TERMINATED. -/
  failure : Bool := false
  onlyIfStatus : Option CallStatus := none
  provider : TellProvider := .nothing
  /-- `agentAfter: 'offline'`. -/
  agentOffline : Bool := false
  deriving DecidableEq, Repr

namespace CallTerminator

def closeMedia (callId : Nat) : Code Unit := media callId .close

/-- The request to the provider for a call as it was before it ended. -/
def providerAction (call : Call) : TellProvider → Option ProviderAction
  | .nothing => none
  | .whenUnanswered =>
    if call.direction = .inbound && call.answeredAt.isNone then some .reject else some .terminate
  | .terminate => some .terminate
  | .reject => some .reject
  | .busy => some .rejectBusy

/-- Frees the call's agent; the queues drain unless the agent is gone. -/
def freeAgent (call : Call) (offline : Bool) : Code Unit :=
  match call.agentId with
  | none => return ()
  | some agentId => do
    let _ ← releaseAgent agentId call.id offline
    if !offline then assignOldestUnassignedCall call.tenantId

def tellProvider (call : Call) (provider : TellProvider) : Code Unit :=
  match providerAction call provider with
  | none => return ()
  | some action => if call.providerCallId.isSome then Code.provider call.id action else return ()

/-- The side effects of an end whose final state is committed. -/
def settle (call : Call) (reason : TerminationReason) (terminatedBy : TerminatedBy)
    (provider : TellProvider := .nothing) (agentOffline : Bool := false) : Code Unit := do
  .cmd (Stmt.fillQueueDuration call.id)
  record (.endParticipants call.id)
  emit (.callTerminated call.id (some reason) (some terminatedBy))
  freeAgent call agentOffline
  tellProvider call provider
  closeMedia call.id

/-- The guarded write of the final state. -/
def commit (callId : Nat) (opts : EndOptions) : Code Bool :=
  if opts.failure then update callId (.markCallFailedIfNotFinal opts.reason opts.terminatedBy)
  else update callId
    (.terminateCallIfNotTerminated (some opts.reason) opts.terminatedBy none opts.onlyIfStatus)

/-- `end`; true if it ended the call. -/
def endCall (call : Call) (opts : EndOptions) : Code Bool := do
  if ← commit call.id opts then
    settle call opts.reason opts.terminatedBy opts.provider opts.agentOffline
    return true
  -- a guarded end lost because the call moved on: it is live, so is its media
  if opts.onlyIfStatus.isSome then
    if (← read (.getStatus call.id)).any (·.active) then return false
  closeMedia call.id
  return false

/-- `end` given an id. -/
def endById (callId : Nat) (opts : EndOptions) : Code Bool := do
  match ← read (.findById callId) with
  | none => return false
  | some call => endCall call opts

end CallTerminator

/-! ## CALL_TERMINATED on the worker holding the media -/

/-- Why an agent, the API or a media watchdog asks for the end. -/
inductive HangUp
  | hangUp | cancelled | systemFailed | customerNetworkLoss
  deriving DecidableEq, Repr

def hangUpOptions (call : Call) (reason : HangUp) (byConsumer : Bool) : EndOptions :=
  match reason with
  | .systemFailed =>
    { reason := .networkError, terminatedBy := .system, failure := true, provider := .terminate }
  | .customerNetworkLoss =>
    { reason := .customerNetworkLoss, terminatedBy := .system, failure := true,
      provider := .terminate }
  | .cancelled =>
    { reason := .cancelled, terminatedBy := if byConsumer then .consumer else .agent,
      provider := .whenUnanswered }
  | .hangUp =>
    { reason :=
        if call.answeredAt.isNone && (call.status = .ringing || call.status = .initiated)
        then .noAnswer else .completed
      terminatedBy := if byConsumer then .consumer else .agent
      provider := .whenUnanswered }

/-- `TerminationEventHandler.handleCallTerminated`. -/
def handleCallTerminated (callId : Nat) (reason : HangUp) (byConsumer : Bool) : Code Unit := do
  match ← read (.findById callId) with
  | none => return ()
  | some call =>
    if call.ended then CallTerminator.closeMedia callId
    else
      let _ ← CallTerminator.endCall call (hangUpOptions call reason byConsumer)
      return ()

/-- `ConnectionEventHandler._reconnectExpired`. -/
def reconnectExpired (callId : Nat) : Code Unit := do
  match ← read (.findById callId) with
  | none => return ()
  | some call =>
    let _ ← CallTerminator.endCall call
      { reason := .agentDisconnected, terminatedBy := .system, provider := .terminate,
        agentOffline := true }
    return ()

/-! ## Cleanup sweeps (`CallCleanupService`) -/

/-- The end a cleanup item gets: NO_ANSWER and IVR_AGENT_NO_ANSWER only while
the call still rings, other reasons unconditionally. -/
def cleanupOptions (reason : TerminationReason) : EndOptions :=
  { reason, terminatedBy := .system,
    onlyIfStatus :=
      if reason = .noAnswer || reason = .ivrAgentNoAnswer then some .ringing else none
    provider := .whenUnanswered }

def endCleanupItems (calls : List Call) : List (Nat × TerminationReason) → Code Unit
  | [] => return ()
  | (callId, reason) :: rest => do
    if let some call := calls.find? (·.id = callId) then
      let _ ← CallTerminator.endCall call (cleanupOptions reason)
    endCleanupItems calls rest

def batchCleanupCalls (items : List (Nat × TerminationReason)) : Code Unit := do
  if items.isEmpty then return ()
  let calls ← read (.findByIds (items.map (·.1)))
  endCleanupItems calls items

/-- The reason a stuck call is ended with. -/
def stuckReason (call : Call) : TerminationReason :=
  if call.status = .ringing then .noAnswer else call.terminationReason.getD .completed

def releaseStaleCallsForUser (agentId : Nat) : Code Unit := do
  let stuckCalls ← read (.findStuckCallsForUser agentId 1)
  batchCleanupCalls (stuckCalls.map fun call => (call.id, stuckReason call))

/-- The stuck-call scan of `_runPeriodicCleanup`. -/
def runPeriodicCleanup : Code Unit := do
  let stuckCalls ← read (.findAllStuckCalls 1)
  batchCleanupCalls (stuckCalls.map fun call => (call.id, stuckReason call))

def outboundIntentTtlMinutes : Nat := 2

def endExpiredIntents : List Call → Code Unit
  | [] => return ()
  | call :: rest => do
    let _ ← CallTerminator.endById call.id
      { reason := .cancelled, terminatedBy := .system, onlyIfStatus := some .initiated }
    endExpiredIntents rest

def expireOutboundIntents : Code Unit := do
  endExpiredIntents (← read (.findExpiredOutboundIntents outboundIntentTtlMinutes))

def recordIvrMisses : List Call → Code Unit
  | [] => return ()
  | call :: rest => do
    if let some agentId := call.agentId then
      let _ ← recordMiss call.id call.tenantId call.queueId agentId true
    recordIvrMisses rest

/-- `_runIvrRingCleanup`. -/
def runIvrRingCleanup : Code Unit := do
  let stuckCalls ← read .findStuckIvrTransferredCalls
  recordIvrMisses stuckCalls
  batchCleanupCalls (stuckCalls.map fun call => (call.id, .ivrAgentNoAnswer))

end Callio
