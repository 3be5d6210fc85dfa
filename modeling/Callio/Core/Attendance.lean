import Callio.Core.Handlers
import Callio.Persistence.CallParticipants

/-! `CallParticipants`: where the handlers record who is in a call. Of the other
handlers, the records of agents and of a call's end are statements already
(`Stmt`), carried out here on the table. The customer's joins, the devices of
reconnects and the supervisors are added in their places. -/

namespace Callio

open Concurrency

/-! ## Statements -/

/-- The shared world, and who is in which call. -/
structure Register where
  world : World := {}
  participants : Participants := []

inductive Act
  /-- A statement of a handler for an agent on this device. -/
  | stmt (deviceId : Option Nat) (s : Stmt)
  /-- `at_`: now, unless it is given. -/
  | join (p : Participant) (at_ : Option Nat)
  | leave (p : Participant) (reason : LeaveReason)
  | setDevice (p : Participant) (deviceId : Option Nat)

namespace Act

open CallParticipantRepository

abbrev Res : Act → Type
  | stmt _ s => s.Res
  | _ => Unit

/-- What a handler's statement writes to `call_participants`. -/
def written (deviceId : Option Nat) (now : Nat) (rows : Participants) : Stmt → Participants
  | .record (.joinParticipant c a) => CallParticipantRepository.join rows ⟨c, .agent, some a⟩ deviceId now
  | .record (.leaveParticipant c a) => CallParticipantRepository.leave rows ⟨c, .agent, some a⟩ .transferred now
  | .record (.endParticipants c) => leaveAll rows c .ended now
  | _ => rows

def answer (reg : Register) : (s : Stmt) → s.Res
  | .query (.participants c) => agentsOf reg.participants c
  | s => (s.exec reg.world).2

def exec : (act : Act) → Register → Register × act.Res
  | stmt deviceId s, reg =>
      ({ world := (s.exec reg.world).1
         participants := written deviceId reg.world.now reg.participants s }, answer reg s)
  | join p at_, reg =>
      ({ reg with participants :=
          CallParticipantRepository.join reg.participants p none (at_.getD reg.world.now) }, ())
  | leave p reason, reg =>
      ({ reg with participants := CallParticipantRepository.leave reg.participants p reason reg.world.now }, ())
  | setDevice p deviceId, reg =>
      ({ reg with participants := CallParticipantRepository.setDevice reg.participants p deviceId }, ())

end Act

/-- A handler's code, on the register. -/
abbrev Attending := Prog Act.Res

namespace Attending

def of (deviceId : Option Nat) {α : Type} : Code α → Attending α
  | .ret a => .ret a
  | .call s k => .call (.stmt deviceId s) fun r => of deviceId (k r)

def join (callId : Nat) (kind : ParticipantKind) (agentId : Option Nat := none) (at_ : Option Nat := none) :
    Attending Unit :=
  .cmd (Act.join ⟨callId, kind, agentId⟩ at_)

def leave (callId : Nat) (kind : ParticipantKind) (agentId : Nat) (reason : LeaveReason) : Attending Unit :=
  .cmd (Act.leave ⟨callId, kind, some agentId⟩ reason)

def agentDevice (callId agentId : Nat) (deviceId : Option Nat) : Attending Unit :=
  .cmd (Act.setDevice ⟨callId, .agent, some agentId⟩ deviceId)

/-! ## The customer -/

/-- The call rings, or its IVR takes it: the customer is in it. -/
def ringIn (line : Line) (outcome : InboundOutcome) (route : Route) (assigned : Option Nat) (callId ringingAt : Nat) :
    Attending Unit := do
  join callId .customer none (some ringingAt)
  match route with
  | .ivr _ =>
    of none (ivrAutoAccept callId outcome.providerAccepts)
    of none (Code.emit (.callIncoming callId none [] none))
  | route => of none (offerOnArrival callId line.tenantId route assigned)

/-- `handleRoutedCall`, with the customer's join. -/
def handleRoutedCall (line : Line) (offer : InboundOffer) (outcome : InboundOutcome) (route : Route)
    (callId ringingAt : Nat) : Attending Unit := do
  let key := line.key offer.providerCallId
  let (assigned, miss) ← of none (claimOnArrival route callId outcome.ownerReachable)
  of none (Code.record (.createCustomerConnection callId true))
  if outcome.lookupRejects then
    let _ ← of none (CallTerminator.endById callId rejectedOptions)
    return ()
  if (← of none (Code.read (.tombstone key))).isSome then
    let _ ← of none (finalizeFromWebhook callId .cancelled .customer (instantaneous ringingAt))
    of none (Code.record (.deleteTombstone key))
    of none (CallTerminator.settleById callId .cancelled .customer)
    return ()
  match route, miss with
  | .nowhere, _ =>
    let _ ← of none (CallTerminator.endById callId rejectedOptions)
    return ()
  | .owner ownerId, some why => of none (lineMissed callId ownerId why)
  | route, _ => ringIn line outcome route assigned callId ringingAt

/-- A call the consumer rejects goes nowhere. -/
def routed (line : Line) (outcome : InboundOutcome) : Attending Route :=
  if outcome.lookupRejects then pure .nowhere else of none (InboundRouter.route line outcome.ivrFlowId)

/-- Stored under its route, unless the channel has the provider's id already. -/
def createRouted (line : Line) (offer : InboundOffer) (outcome : InboundOutcome) (ringingAt : Nat) (route : Route) :
    Attending Unit := do
  match ← of none (.cmd (Stmt.createCall (routedRow (baseRow line offer ringingAt) route))) with
  | none => return ()
  | some callId => handleRoutedCall line offer outcome route callId ringingAt

def handleIncomingCall (line : Line) (offer : InboundOffer) (outcome : InboundOutcome) : Attending Unit := do
  let key := line.key offer.providerCallId
  let ringingAt := offer.offeredAt.getD (← of none (Code.read .now))
  let base := baseRow line offer ringingAt
  match ← of none (Code.read (.tombstone key)) with
  | some tombstone => of none (handleMissedBeforeOffer key base ringingAt tombstone)
  | none =>
    if (← of none (Code.read (.findActiveInboundByCustomer line.tenantId offer.customerAddress))).isSome then
      of none (recordDuplicate base ringingAt)
    else
      let route ← routed line outcome
      createRouted line offer outcome ringingAt route

def inboundCall (line : Line) (offer : InboundOffer) (outcome : InboundOutcome) : Attending Unit := do
  let key := line.key offer.providerCallId
  if (← of none (Code.read (.findByProviderCallId key))).isSome then return ()
  if !(← of none (.cmd (Stmt.claimOwnership key))) then return ()
  handleIncomingCall line offer outcome
  let latestCall ← of none (Code.read (.findByProviderCallId key))
  if latestCall.all (·.ended) then of none (Code.record (.releaseOwnership key))

/-- ACCEPTED: an outbound call's customer joins when we learn of the answer,
unless the call was over as it was read. -/
def customerAnswered (call : Call) : Attending Unit := do
  if call.direction = .outbound then
    if !call.ended then join call.id .customer
    of none (Code.emit (.callHandled call.id call.agentId))

def providerAccepted (call : Call) (at_ : Nat) : Attending Unit := do
  if call.ringingAt.isNone then of none (updateTimestamp call.id .ringingAt at_)
  of none (updateTimestamp call.id .answeredAt at_)
  if !call.ended && call.status ≠ .inProgress then
    let _ ← of none (Code.update call.id (.updateStatus .inProgress))
    let _ ← of none (Code.update call.id (.updateState (some .active)))
  customerAnswered call

def statusChanged (line : Line) (providerCallId : Nat) (status : ProviderStatus) (at_ : Option Nat) :
    Attending Unit := do
  match ← of none (Code.read (.findByProviderCallId (line.key providerCallId))) with
  | none => return ()
  | some call =>
    if !line.owns call then return ()
    let timestampValue := at_.getD (← of none (Code.read .now))
    match status with
    | .ringing => of none (providerRinging call timestampValue)
    | .accepted => providerAccepted call timestampValue
    | .rejected => of none (providerRejected call timestampValue)
    | .failed => of none (providerFailed call timestampValue)

/-! ## Agents who reconnect -/

def handleAgentReconnected (deviceId : Option Nat) (callId userId tenantId : Nat) (withOffer : Bool) :
    Attending Unit := do
  match ← of deviceId (Code.read (.findById callId)) with
  | none => return ()
  | some call =>
    if !call.isActiveFor tenantId userId then return ()
    if withOffer then
      let _ ← of deviceId (MediaLegs.answerAgent callId userId)
      of deviceId (Code.media callId .bridge)
      agentDevice callId userId deviceId
      of deviceId (Code.emit (.callReconnected callId userId none))
    else
      let offer ← of deviceId (MediaLegs.offerAgent callId)
      of deviceId (Code.emit (.callReconnected callId userId (some offer)))

def handleReconnectAnswered (deviceId : Option Nat) (a : Accept) : Attending Unit := do
  match ← of deviceId (Code.read (.findById a.callId)) with
  | none => return ()
  | some call =>
    if !call.isActiveFor a.tenantId a.userId then return ()
    if !(← of deviceId (Code.read (.hasAgentOffer a.callId))) then return ()
    match ← of deviceId (Code.media a.callId (.agentAccepted a.userId a.sdpAnswer a.audio)) with
    | .ok =>
      of deviceId (Code.media a.callId .bridge)
      agentDevice a.callId a.userId deviceId
    | _ => return ()

/-! ## Supervisors -/

/-- `getInProgressCall`. -/
def getInProgressCall (tenantId callId : Nat) : Attending (Option Call) := do
  let call ← of none (Code.read (.findById callId))
  return call.filter fun call =>
    call.tenantId = tenantId && call.status = .inProgress && call.state = some .active

/-- A monitor start or answer, with what the tenant and the room make of it. -/
structure Monitor where
  callId : Nat
  userId : Nat
  tenantId : Nat := 1
  /-- The supervisor's client made the offer. -/
  sdpOffer : Bool := true
  /-- The tenant's modes include 'listen'. -/
  listenAllowed : Bool := true
  /-- `hasSupervisor`. -/
  occupied : Bool := false
  /-- The leg is made, or answered. -/
  legUp : Bool := true
  deriving DecidableEq, Repr

/-- Without an offer, Callio's is sent, and the supervisor answers it. -/
def handleMonitorStarted (m : Monitor) : Attending Unit := do
  match ← getInProgressCall m.tenantId m.callId with
  | none => return ()
  | some call =>
    if !m.listenAllowed || m.occupied || !m.sdpOffer || !m.legUp then return ()
    join call.id .supervisor (some m.userId)

def handleMonitorAnswered (m : Monitor) : Attending Unit := do
  match ← getInProgressCall m.tenantId m.callId with
  | none => return ()
  | some call =>
    if !m.legUp then return ()
    join call.id .supervisor (some m.userId)

/-- `removed`: the leg was taken out. -/
def handleMonitorStopped (callId userId : Nat) (removed : Bool) : Attending Unit := do
  if !removed then return ()
  leave callId .supervisor userId .monitorStopped

end Attending

/-! ## Every handler -/

inductive Attendant
  | handler (h : Handler) (deviceId : Option Nat)
  | monitorStarted (m : Attending.Monitor)
  | monitorAnswered (m : Attending.Monitor)
  | monitorStopped (callId userId : Nat) (removed : Bool)

namespace Attendant

def handlerCode (deviceId : Option Nat) : Handler → Attending Unit
  | .inboundCall line offer outcome => Attending.inboundCall line offer outcome
  | .statusChanged line p status t => Attending.statusChanged line p status t
  | .agentReconnected c u t withOffer => Attending.handleAgentReconnected deviceId c u t withOffer
  | .reconnectAnswered a => Attending.handleReconnectAnswered deviceId a
  | h => .of deviceId h.code

def code : Attendant → Attending Unit
  | handler h deviceId => handlerCode deviceId h
  | monitorStarted m => Attending.handleMonitorStarted m
  | monitorAnswered m => Attending.handleMonitorAnswered m
  | monitorStopped c u removed => Attending.handleMonitorStopped c u removed

/-! ## Runs -/

variable {ι : Type} [DecidableEq ι]

/-- The handlers after the schedule's first `k` moves. -/
def after (as : ι → Attendant) (reg : Register) (schedule : List ι) (k : Nat) : Config Act.Res Register ι :=
  run Act.exec (Config.spawn reg fun i => (as i).code) (schedule.take k)

end Attendant

end Callio
