import Callio.Persistence.Repositories

/-! Routing: who a call is offered to (`QueueRouter`, `CallAgentAssignmentService`,
`OfferHistory`, `AutoOfflinePolicy`) and what changes an agent's or a queue's
state (`AgentAssignmentCoordinator`). Of a queue's snapshot only the order is
here. -/

namespace Callio

open Code

/-! ## Legs offered to agents (`MediaLegs`) -/

namespace MediaLegs

/-- A new leg for the agent being offered the call, and its record. -/
def offerAgent (callId : Nat) : Code Sdp := do
  let offer ← media callId .offerAgent
  record (.deleteAgentConnection callId)
  record (.createAgentConnection callId offer)
  return offer

/-- A leg the agent offered, and its record: the stored SDP is an answer. -/
def answerAgent (callId agentId : Nat) : Code Sdp := do
  let answer ← media callId (.answerAgent agentId)
  record (.deleteAgentConnection callId)
  record (.createAgentConnection callId answer)
  return answer

end MediaLegs

/-! ## Claims -/

/-- Tries the candidates in order until a claim succeeds. The second part:
another worker took the call meanwhile. -/
def claimInOrder (claim : Nat → Code Claim) : List Agent → Code (Option Agent × Bool)
  | [] => return (none, false)
  | a :: rest => do
    let c ← claim a.id
    if c.assigned then return (some a, false)
    let (agent, taken) ← claimInOrder claim rest
    return (agent, taken || c.claimed)

namespace QueueRouter

def getQueue (queueId : Option Nat) : Code (Option Queue) :=
  match queueId with
  | none => return none
  | some queueId => do
    let queue ← read (.findQueue queueId)
    return queue.filter (·.active)

/-- The members in the order the strategy tries them. -/
def ordered (queue : Queue) (strategy : QueueStrategy) (members : List Agent) :
    Code (List Agent) :=
  let available := members.filter (·.availability = .available)
  if strategy = .priority || available.isEmpty then return available
  else .cmd (Stmt.reconcileQueueOrder queue.id members)

/-- Claims a member and assigns a waiting call. -/
def claimForWaitingCall (queue : Queue) (callId : Nat) (members : List Agent) :
    Code (Option Agent × Bool) := do
  let candidates ← ordered queue queue.strategy members
  claimInOrder (fun agentId => .cmd (Stmt.claimAgentAndAssignCall agentId callId false)) candidates

/-- A new call never jumps ahead of older waiting ones. -/
def claimForNewCall (queue : Queue) (callId : Nat) : Code (Option Agent) := do
  if queue.isRingAll then return none
  if ← read (.hasUnassignedCalls queue.id callId) then return none
  let members ← read (.getMembers queue.id)
  return (← claimForWaitingCall queue callId members).1

/-- Claims one member for a transfer into the queue; a RING_ALL queue picks
round-robin. -/
def claimMemberForTransfer (queue : Queue) (callId : Nat) (excludeAgentId : Option Nat) :
    Code (Option Agent) := do
  let members := (← read (.getMembers queue.id)).filter fun a => excludeAgentId ≠ some a.id
  let candidates ← ordered queue queue.strategy members
  let claim (agentId : Nat) : Code Claim := do
    let won ← updateAgent agentId (.claimAgentForCall callId)
    return ⟨won, won⟩
  return (← claimInOrder claim candidates).1

/-- RING_ALL: every available member. -/
def ringAllTargets (queue : Queue) : Code (List Agent) := do
  return (← read (.getMembers queue.id)).filter (·.availability = .available)

/-- The order a queue's snapshot shows (`buildQueueSnapshot`). -/
def snapshotOrder (queue : Queue) : Code (List Agent) := do
  let members ← read (.getMembers queue.id)
  if queue.strategy = .priority then return members.filter (·.availability = .available)
  else .cmd (Stmt.reconcileQueueOrder queue.id members)

def isAtCapacity (queue : Option Queue) (excludeCallId : Nat) : Code Bool :=
  match queue.bind fun q => q.maxActiveCalls.map (q.id, ·) with
  | none => return false
  | some (queueId, limit) => do
    if limit = 0 then return false
    return (← read (.countOtherActiveCallsInQueue queueId excludeCallId)) ≥ limit

end QueueRouter

namespace OfferHistory

inductive Kind
  | declined | missed
  deriving DecidableEq, Repr

def record (callId agentId : Nat) : Kind → Code Unit
  | .declined => Code.record (.recordDeclined callId agentId)
  | .missed => Code.record (.recordMissed callId agentId)

/-- The members a call may be offered to now. -/
def eligible (callId : Nat) (members : List Agent) : Code (List Agent) := do
  let declined ← read (.declined callId)
  let missed ← read (.missed callId)
  if declined.isEmpty && missed.isEmpty then return members
  let notDeclined := members.filter fun a => !declined.contains a.id
  let fresh := notDeclined.filter fun a => !missed.contains a.id
  if missed.isEmpty || fresh.any (·.availability = .available) then return fresh
  -- everyone available has missed it this round: the next round starts
  if notDeclined.any (·.availability = .available) then Code.record (.clearMissed callId)
  return notDeclined

end OfferHistory

/-- Counts a missed offer; true if the agent was taken offline. -/
def recordMiss (callId tenantId : Nat) (queueId : Option Nat) (agentId : Nat)
    (anyQueue : Bool := false) : Code Bool := do
  let queue ← QueueRouter.getQueue queueId
  if !anyQueue && !(queue.any fun q => !q.isRingAll) then return false
  match ← read (.autoOffline tenantId) with
  | none => return false
  | some threshold =>
    if ← read (.hasAgentActiveCall agentId callId) then return false
    let streak ← .cmd (Stmt.incrementMissed agentId)
    if streak < threshold then return false
    let flipped ← updateAgent agentId (.updateAgentAvailability .offline)
    Code.record (.resetMissedStreak agentId)
    return flipped

/-! ## AgentAssignmentCoordinator -/

/-- The call no longer holds the agent. `offline`: their shift ends too. -/
def releaseAgent (agentId callId : Nat) (offline : Bool := false) : Code Bool := do
  let released ← updateAgent agentId (.releaseFromCall callId)
  if offline then let _ ← updateAgent agentId (.updateAgentAvailability .offline)
  return released

/-- The offer for the call's agent leg: the stored one, or a new leg made by
the worker that owns the call. -/
def agentOffer (callId : Nat) : Code Sdp := do
  match ← read (.storedAgentOffer callId) with
  | some stored => return stored
  | none => MediaLegs.offerAgent callId

def deliverAssignedCall (callId agentId : Nat) : Code Unit := do
  let sdpOffer ← agentOffer callId
  emit (.callIncoming callId (some agentId) [] (some sdpOffer))

/-- Offers the oldest waiting call that a member can take. The second part of
the answer: a claim race was lost. -/
def drainWaiting (queue : Queue) (members : List Agent) : List Call → Code (Bool × Bool)
  | [] => return (false, false)
  | call :: rest => do
    let eligible ← OfferHistory.eligible call.id members
    let (agent, takenByAnotherWorker) ← QueueRouter.claimForWaitingCall queue call.id eligible
    match agent with
    | some agent =>
      deliverAssignedCall call.id agent.id
      return (true, false)
    | none =>
      let (assigned, raceLost) ← drainWaiting queue members rest
      return (assigned, raceLost || takenByAnotherWorker)

def drainQueue (queue : Queue) : (attempts : Nat) → Code Bool
  | 0 => return false
  | attempts + 1 => do
    let members ← read (.getMembers queue.id)
    if !members.any (·.availability = .available) then return false
    let waiting ← read (.findOldestUnassignedCalls queue.id 25)
    let (assigned, raceLost) ← drainWaiting queue members waiting
    if assigned || !raceLost then return assigned
    drainQueue queue attempts

def drainAttempts : Nat := 3

def drainQueues : List Nat → Code Unit
  | [] => return ()
  | queueId :: rest => do
    match ← QueueRouter.getQueue (some queueId) with
    | none => drainQueues rest
    | some queue =>
      if !queue.isRingAll then let _ ← drainQueue queue drainAttempts
      drainQueues rest

/-- An agent may have freed up: drains the tenant's queues, longest wait first. -/
def assignOldestUnassignedCall (tenantId : Nat) : Code Unit := do
  drainQueues (← read (.findQueuesWithWaitingCalls tenantId))

/-- RING_ALL: every available member is offered the call. -/
def offerToAll (queue : Queue) (callId : Nat) : Code Unit := do
  match ← read (.findById callId) with
  | none => return ()
  | some _ =>
    let offered ← OfferHistory.eligible callId (← QueueRouter.ringAllTargets queue)
    if offered.isEmpty then return ()
    let sdpOffer ← agentOffer callId
    emit (.callIncoming callId none (offered.map (·.id)) (some sdpOffer))

/-- Offers a call waiting in its queue. -/
def routeWaitingCall (callId : Nat) (queueId : Option Nat) : Code Unit := do
  match ← QueueRouter.getQueue queueId with
  | none => return ()
  | some queue =>
    if queue.isRingAll then offerToAll queue callId
    else
      let _ ← drainQueue queue drainAttempts
      return ()

/-- An offer the agent declined, or that rang out, passes to the next member.
False if it was no longer this agent's to pass on. -/
def passOffer (call : Call) (agentId : Nat) (kind : OfferHistory.Kind)
    (expiredBefore : Option Nat := none) : Code Bool := do
  if !(← update call.id (.withdrawOffer agentId expiredBefore)) then return false
  OfferHistory.record call.id agentId kind
  emit (.offerWithdrawn call.id [agentId])
  let _ ← releaseAgent agentId call.id
  if kind = .missed then let _ ← recordMiss call.id call.tenantId call.queueId agentId
  routeWaitingCall call.id call.queueId
  return true

/-- Whoever a waiting call rings: its agent, else everyone in a RING_ALL queue. -/
def ringingAgents (call : Call) : Option Queue → Code (List Nat)
  | none => return call.agentId.toList
  | some queue =>
    match call.agentId with
    | some agentId => return [agentId]
    | none => if queue.isRingAll then read (.getMemberIds queue.id) else return []

/-- The queue a call waits in, whether or not it is active. -/
def waitingIn (call : Call) : Code (Option Queue) :=
  match call.queueId with
  | none => return none
  | some queueId => read (.findQueue queueId)

/-- A waiting call moved to its overflow queue: whoever it was ringing stops
ringing, and the new queue offers it. -/
def callOverflowed (call : Call) (toQueueId : Nat) : Code Unit := do
  let withdrawFrom ← ringingAgents call (← waitingIn call)
  if !withdrawFrom.isEmpty then emit (.offerWithdrawn call.id withdrawFrom)
  if let some agentId := call.agentId then let _ ← releaseAgent agentId call.id
  record (.clearMissed call.id)
  routeWaitingCall call.id (some toQueueId)

/-- The target an IVR flow names for its transfer. -/
inductive TransferTarget
  | agent (agentId : Nat)
  | queue (queueId : Option Nat)
  deriving DecidableEq, Repr

/-- Assigns a transferred call; otherwise it waits in its queue. `queueId`: the
queue the call's row names. -/
def assignTransferredCall (callId tenantId : Nat) (queueId : Option Nat) (target : TransferTarget) :
    Code Unit := do
  match target with
  | .agent agentId =>
    match ← read (.findAgent agentId) with
    | none => return ()
    | some candidate =>
      if candidate.tenantId = tenantId && candidate.availability = .available then
        let claim ← .cmd (Stmt.claimAgentAndAssignCall candidate.id callId false)
        if claim.assigned then deliverAssignedCall callId candidate.id
  | .queue targetId =>
    match ← QueueRouter.getQueue (targetId.or queueId) with
    | none => return ()
    | some queue =>
      if queue.isRingAll then offerToAll queue callId
      else
        let members ← read (.getMembers queue.id)
        let (agent, _) ← QueueRouter.claimForWaitingCall queue callId members
        match agent with
        | none => return ()
        | some agent => deliverAssignedCall callId agent.id

end Callio
