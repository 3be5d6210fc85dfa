import Callio.Concurrency.Program
import Mathlib.Data.List.Sort
import Callio.Persistence.AgentUpdates
import Callio.Persistence.CallFinders
import Callio.Persistence.CallUpdates

/-! Every way a handler reaches the shared world, one atomic step each: SQL
statements (one transaction), Redis commands, operations on a room (which run
one at a time for a call), messages to clients and providers. -/

namespace Callio

open Concurrency

/-! ## Reads -/

inductive Query
  | now
  | findById (callId : Nat)
  | findByIds (callIds : List Nat)
  | getStatus (callId : Nat)
  | findByProviderCallId (key : ProviderKey)
  | findActiveInboundByCustomer (tenantId : Nat) (customerAddress : Option Nat)
  | hasAgentActiveCall (agentId excludeCallId : Nat)
  | countOtherActiveCallsInQueue (queueId excludeCallId : Nat)
  | hasUnassignedCalls (queueId beforeCallId : Nat)
  | findQueuesWithWaitingCalls (tenantId : Nat)
  | findOldestUnassignedCalls (queueId limit : Nat)
  | findExpiredOffers
  | findExpiredWaits
  | findExpiredHandovers (timeoutSeconds : Nat)
  | findStuckIvrTransferredCalls
  | findAllStuckCalls (ringingMinutes : Nat)
  | findStuckCallsForUser (agentId ringingMinutes : Nat)
  | findExpiredOutboundIntents (minutes : Nat)
  | findAgent (agentId : Nat)
  | busyCallId (agentId : Nat)
  | findQueue (queueId : Nat)
  | getMembers (queueId : Nat)
  | getMemberIds (queueId : Nat)
  | tombstone (key : ProviderKey)
  | declined (callId : Nat)
  | missed (callId : Nat)
  | autoOffline (tenantId : Nat)
  | storedAgentOffer (callId : Nat)
  | customerOffer (callId : Nat)
  | participants (callId : Nat)
  | hasAgentOffer (callId : Nat)
  /-- `callMedia.owns`. -/
  | ownsMedia (callId : Nat)

namespace Query

abbrev Res : Query → Type
  | now | countOtherActiveCallsInQueue _ _ => Nat
  | findById _ | findByProviderCallId _ | findActiveInboundByCustomer _ _ => Option Call
  | getStatus _ => Option CallStatus
  | hasAgentActiveCall _ _ | hasUnassignedCalls _ _ | customerOffer _ | hasAgentOffer _
  | ownsMedia _ => Bool
  | findQueuesWithWaitingCalls _ | getMemberIds _ | declined _ | missed _ | participants _ => List Nat
  | findExpiredWaits => List (Call × Option Nat)
  | findByIds _ | findOldestUnassignedCalls _ _ | findExpiredOffers | findExpiredHandovers _
  | findStuckIvrTransferredCalls | findAllStuckCalls _ | findStuckCallsForUser _ _
  | findExpiredOutboundIntents _ => List Call
  | findAgent _ => Option Agent
  | busyCallId _ | autoOffline _ => Option Nat
  | findQueue _ => Option Queue
  | getMembers _ => List Agent
  | tombstone _ => Option Tombstone
  | storedAgentOffer _ => Option Sdp

end Query

/-- `WAITING_IN_QUEUE`. -/
def CallRow.waitingInQueue (c : CallRow) : Bool :=
  c.status = .ringing && c.agentId.isNone && c.direction = .inbound &&
    (c.state.isNone || c.state = some .queue)

/-- A regular call `hasUnassignedCalls` counts: not one the IVR transferred. -/
def CallRow.unassignedRegular (c : CallRow) : Bool :=
  c.status = .ringing && c.agentId.isNone && c.direction = .inbound && c.ivrFlowId.isNone &&
    c.state ≠ some .ivr

/-- What counts toward `queues.max_active_calls`. -/
def CallRow.countsTowardCapacity (c : CallRow) : Bool :=
  (c.status = .inProgress && c.state = some .active) ||
    ((c.status = .initiated || c.status = .ringing) && c.direction = .outbound)

namespace World

def findCall (w : World) (callId : Nat) : Option Call :=
  (w.call callId).map fun c => { c with id := callId }

/-- The rows a WHERE clause keeps, in key order. -/
def selectCalls (w : World) (p : Call → Bool) : List Call :=
  (List.range w.calls.nextId).filterMap fun id => (w.findCall id).filter p

/-- ORDER BY a time column (NULL first) and LIMIT. -/
def orderBy (column : Call → Option Nat) (limit : Nat) (calls : List Call) : List Call :=
  (calls.insertionSort fun a b => (column a).getD 0 ≤ (column b).getD 0).take limit

def findAgent (w : World) (agentId : Nat) : Option Agent :=
  ((w.agent agentId).filter fun a => !a.deleted).map fun a =>
    { id := agentId, tenantId := a.tenantId, availability := a.reportedAvailability,
      busyCallId := a.busyCallId }

def findQueue (w : World) (queueId : Nat) : Option Queue :=
  (w.queues queueId).map fun q => { q with id := queueId }

end World

open World in
/-- What a read returns. -/
def Query.answer (w : World) : (q : Query) → q.Res
  | now => w.now
  | findById callId => w.findCall callId
  | findByIds callIds => w.selectCalls fun c => callIds.contains c.id
  | getStatus callId => (w.call callId).map (·.status)
  | findByProviderCallId key =>
      (w.selectCalls fun c => c.channel = key.channel &&
        c.providerCallId = some key.providerCallId).head?
  | findActiveInboundByCustomer tenantId customerAddress =>
      if customerAddress.isNone then none
      else
        (w.selectCalls fun c => c.tenantId = tenantId && c.customerAddress = customerAddress &&
          c.direction = .inbound && (c.status = .ringing || c.status = .inProgress)).getLast?
  | hasAgentActiveCall agentId excludeCallId => w.hasActiveCall agentId (some excludeCallId)
  | countOtherActiveCallsInQueue queueId excludeCallId =>
      (w.selectCalls fun c => c.queueId = some queueId && c.id ≠ excludeCallId &&
        c.countsTowardCapacity).length
  | hasUnassignedCalls queueId beforeCallId =>
      !(w.selectCalls fun c => c.queueId = some queueId && c.id < beforeCallId &&
        c.unassignedRegular).isEmpty
  | findQueuesWithWaitingCalls tenantId =>
      let waiting := w.selectCalls fun c => c.tenantId = tenantId && c.waitingInQueue
      ((orderBy (·.ringingAt) waiting.length waiting).filterMap (·.queueId)).eraseDups
  | findOldestUnassignedCalls queueId limit =>
      orderBy (·.ringingAt) (max 1 (min limit 100))
        (w.selectCalls fun c => c.queueId = some queueId && c.waitingInQueue)
  | findExpiredOffers =>
      orderBy (·.offeredAt) 50 (w.selectCalls fun c => (Callio.findExpiredOffers w c.toCallRow).holds)
  | findExpiredWaits =>
      (orderBy (·.queuedAt) 50
        (w.selectCalls fun c => (Callio.findExpiredWaits w c.toCallRow).holds)).map
          fun c => (c, (w.queueOf c.toCallRow).bind (·.overflowQueueId))
  | findExpiredHandovers timeoutSeconds =>
      orderBy (·.offeredAt) 50
        (w.selectCalls fun c => (Callio.findExpiredHandovers w timeoutSeconds c.toCallRow).holds)
  | findStuckIvrTransferredCalls =>
      w.selectCalls fun c => (Callio.findStuckIvrTransferredCalls w c.toCallRow).holds
  | findAllStuckCalls ringingMinutes =>
      w.selectCalls fun c => (Callio.findAllStuckCalls w ringingMinutes c.toCallRow).holds
  | findStuckCallsForUser agentId ringingMinutes =>
      w.selectCalls fun c => (Callio.findStuckCallsForUser w agentId ringingMinutes c.toCallRow).holds
  | findExpiredOutboundIntents minutes =>
      w.selectCalls fun c => (Callio.findExpiredOutboundIntents w minutes c.toCallRow).holds
  | findAgent agentId => w.findAgent agentId
  | busyCallId agentId => w.busy agentId
  | findQueue queueId => w.findQueue queueId
  | getMembers queueId => (w.members queueId).filterMap w.findAgent
  | getMemberIds queueId => w.members queueId
  | tombstone key => w.tombstones key
  | declined callId => w.declined callId
  | missed callId => w.missed callId
  | autoOffline tenantId => w.autoOffline tenantId
  | storedAgentOffer callId => w.agentSdp callId
  | customerOffer callId => w.customerOffer callId
  | participants callId => w.participants callId
  | hasAgentOffer callId => (w.rooms callId).pendingAgent.isSome
  | ownsMedia callId => (w.rooms callId).held

/-! ## Rooms -/

inductive MediaOp
  | answerCustomer
  | offerCustomer
  | offerAgent
  /-- `audio`: the microphone's audio arrives in time. -/
  | agentAccepted (agentId : Nat) (sdpAnswer : Sdp) (audio : Bool)
  | answerAgent (agentId : Nat)
  | dropAgent (agentId : Nat)
  | bridge
  | close
  deriving DecidableEq, Repr

/-- How `agentAccepted` ends. -/
inductive Accepted
  | ok | noLeg | noAudio
  deriving DecidableEq, Repr

namespace MediaOp

abbrev Res : MediaOp → Type
  | offerAgent | answerAgent _ => Sdp
  | agentAccepted _ _ _ => Accepted
  | _ => Unit

def run (room : Room) : (op : MediaOp) → Room × op.Res
  | answerCustomer | offerCustomer =>
      ({ room with held := true, legSeq := room.nextLeg, customer := some room.nextLeg }, ())
  | offerAgent =>
      ({ room with held := true, legSeq := room.nextLeg, pendingAgent := some room.nextLeg },
        .offer room.nextLeg)
  | agentAccepted agentId _ audio =>
      let room := { room with held := true }
      match room.pendingAgent with
      | none => (room, .noLeg)
      | some leg =>
        let room := { room with pendingAgent := none }
        if audio then (room.setAgent agentId leg, .ok) else (room, .noAudio)
  | answerAgent agentId =>
      ({ room with held := true, legSeq := room.nextLeg }.setAgent agentId room.nextLeg,
        .answer room.nextLeg)
  | dropAgent agentId => (room.dropAgent agentId, ())
  | bridge => ({ room with held := true }, ())
  | close => ({ legSeq := room.legSeq }, ())

end MediaOp

/-! ## Keys and records beside the calls -/

inductive RecordOp
  | setTombstone (key : ProviderKey) (tombstone : Tombstone)
  | deleteTombstone (key : ProviderKey)
  | releaseOwnership (key : ProviderKey)
  | recordDeclined (callId agentId : Nat)
  | recordMissed (callId agentId : Nat)
  | clearMissed (callId : Nat)
  | resetMissedStreak (agentId : Nat)
  | deleteAgentConnection (callId : Nat)
  | createAgentConnection (callId : Nat) (localSdp : Sdp)
  | createCustomerConnection (callId : Nat) (remoteSdp : Bool)
  | joinParticipant (callId agentId : Nat)
  | leaveParticipant (callId agentId : Nat)
  | endParticipants (callId : Nat)
  | logAccepted (callId : Nat)
  deriving DecidableEq, Repr

def RecordOp.run (w : World) : RecordOp → World
  -- SETNX: the first tombstone stays
  | setTombstone key t =>
      { w with tombstones := Function.update w.tombstones key ((w.tombstones key).or (some t)) }
  | deleteTombstone key => { w with tombstones := Function.update w.tombstones key none }
  | releaseOwnership key => { w with owned := Function.update w.owned key false }
  | recordDeclined c a => { w with declined := Function.update w.declined c (a :: w.declined c) }
  | recordMissed c a => { w with missed := Function.update w.missed c (a :: w.missed c) }
  | clearMissed c => { w with missed := Function.update w.missed c [] }
  | resetMissedStreak a => { w with missedStreak := Function.update w.missedStreak a 0 }
  | deleteAgentConnection c => { w with agentSdp := Function.update w.agentSdp c none }
  -- ON DUPLICATE KEY UPDATE touches nothing of an existing row
  | createAgentConnection c sdp =>
      { w with agentSdp := Function.update w.agentSdp c ((w.agentSdp c).or (some sdp)) }
  | createCustomerConnection c remote =>
      { w with customerOffer := Function.update w.customerOffer c remote }
  | joinParticipant c a =>
      { w with participants := Function.update w.participants c (a :: w.participants c) }
  | leaveParticipant c a =>
      { w with participants := Function.update w.participants c ((w.participants c).erase a) }
  | endParticipants c => { w with participants := Function.update w.participants c [] }
  | logAccepted c =>
      { w with accepted := Function.update w.accepted c (timestamp w.now :: w.accepted c) }

/-! ## A queue's round-robin order -/

/-- An agent keeps their place across a short disconnect. -/
def queueReconnectHoldMs : Nat := 60000

/-- The status a list of members reports of one of them. -/
def reported (members : List Agent) (id : Nat) : Option Availability :=
  (members.find? fun a => a.id = id).map Agent.availability

def isAvailable (members : List Agent) (id : Nat) : Bool :=
  members.any fun a => a.id = id && a.availability = .available

/-- Members keep their place while available or briefly offline. -/
def keepsPlace (now : Nat) (members : List Agent) (previous : QueueOrder) (id : Nat) : Bool :=
  isAvailable members id || (reported members id = some .offline &&
    now - (previous.unavailableSince id).getD now ≤ queueReconnectHoldMs)

/-- The order members became available in, brought up to date: newcomers join
at the tail. -/
def reconcileOrder (now : Nat) (members : List Agent) (previous : QueueOrder) : QueueOrder :=
  -- `new Set` keeps the first of each
  let previousOrder := previous.order.reverse.dedup.reverse
  let kept := previousOrder.filter (keepsPlace now members previous)
  let available := ((members.filter fun a => a.availability = .available).map (·.id)).dedup
  let newcomers := (available.filter fun id => !kept.contains id).insertionSort (· ≤ ·)
  { order := kept ++ newcomers
    unavailableSince := fun id =>
      if kept.contains id && !isAvailable members id
      then some ((previous.unavailableSince id).getD now) else none }

/-- The members given that are available, in the queue's order. -/
def availableInOrder (members : List Agent) (order : List Nat) : List Agent :=
  order.filterMap fun id => members.find? fun a => a.id = id && a.availability = .available

/-! ## Statements -/

inductive Stmt
  | query (q : Query)
  | updateCall (callId : Nat) (u : CallUpdate)
  /-- `none`: the channel already has a row for this provider call id. -/
  | createCall (row : CallRow)
  | fillQueueDuration (callId : Nat)
  | updateAgent (agentId : Nat) (u : AgentUpdate)
  | claimAgentAndAssignCall (agentId callId : Nat) (anyShift : Bool)
  | incrementMissed (agentId : Nat)
  /-- Its Redis commands taken as one step. -/
  | reconcileQueueOrder (queueId : Nat) (members : List Agent)
  /-- `callOwnershipService.claimCall`. -/
  | claimOwnership (key : ProviderKey)
  | media (callId : Nat) (op : MediaOp)
  | record (op : RecordOp)
  | emit (e : Event)
  | provider (callId : Nat) (action : ProviderAction)
  /-- Time passes before the next statement. -/
  | wait (ms : Nat)

/-- Seconds from `queued_at` to the first accept since, or to the end. -/
def CallRow.timeInQueue (c : CallRow) (now : Nat) (accepted : List Nat) : Nat :=
  match c.queuedAt with
  | none => c.queueDuration
  | some q =>
    let ended := ((accepted.filter (q ≤ ·)).min?.or c.endedAt).getD now
    (ended - q) / second

namespace Stmt

abbrev Res : Stmt → Type
  | query q => q.Res
  | updateCall _ _ | updateAgent _ _ | claimOwnership _ => Bool
  | createCall _ => Option Nat
  | incrementMissed _ => Nat
  | claimAgentAndAssignCall _ _ _ => Claim
  | reconcileQueueOrder _ _ => List Agent
  | media _ op => op.Res
  | fillQueueDuration _ | record _ | emit _ | provider _ _ | wait _ => Unit

def exec : (s : Stmt) → World → World × s.Res
  | query q, w => (w, q.answer w)
  | updateCall callId u, w =>
      let (calls, matched) := w.calls.updateWhere callId u.guard (u.set w.now)
      ({ w with calls }, matched)
  | createCall row, w =>
      if row.providerCallId.isSome && w.calls.any (fun _ c => c.channel = row.channel &&
          c.providerCallId = row.providerCallId) then (w, none)
      else
        ({ w with calls := w.calls.insert fun _ => row.inserted w.now }, some w.calls.nextId)
  | fillQueueDuration callId, w =>
      ({ w with calls := w.calls.modify callId fun c =>
          { c with queueDuration := c.timeInQueue (sqlNow w.now) (w.accepted callId) } }, ())
  | updateAgent agentId u, w =>
      let (agents, matched) := w.agents.updateWhere agentId (u.guard w agentId) u.set
      ({ w with agents }, matched)
  | claimAgentAndAssignCall agentId callId anyShift, w =>
      w.claimAgentAndAssignCall agentId callId anyShift
  | incrementMissed agentId, w =>
      let streak := w.missedStreak agentId + 1
      ({ w with missedStreak := Function.update w.missedStreak agentId streak }, streak)
  | reconcileQueueOrder queueId members, w =>
      let next := reconcileOrder w.now members (w.queueOrder queueId)
      ({ w with queueOrder := Function.update w.queueOrder queueId next },
        availableInOrder members next.order)
  | claimOwnership key, w =>
      ({ w with owned := Function.update w.owned key true }, !w.owned key)
  | media callId op, w =>
      let (room, out) := op.run (w.rooms callId)
      ({ w with rooms := Function.update w.rooms callId room }, out)
  | record op, w => (op.run w, ())
  | emit e, w => ({ w with sent := e :: w.sent }, ())
  | provider callId action, w => ({ w with providerLog := (callId, action) :: w.providerLog }, ())
  | wait ms, w => ({ w with now := w.now + ms }, ())

end Stmt

/-! ## Programs -/

/-- A handler's code. -/
abbrev Code := Prog Stmt.Res

namespace Code

def read (q : Query) : Code q.Res := Prog.cmd (Stmt.query q)

def update (callId : Nat) (u : CallUpdate) : Code Bool := Prog.cmd (Stmt.updateCall callId u)

def updateAgent (agentId : Nat) (u : AgentUpdate) : Code Bool := Prog.cmd (Stmt.updateAgent agentId u)

def media (callId : Nat) (op : MediaOp) : Code op.Res := Prog.cmd (Stmt.media callId op)

def record (op : RecordOp) : Code Unit := Prog.cmd (Stmt.record op)

def emit (e : Event) : Code Unit := Prog.cmd (Stmt.emit e)

def provider (callId : Nat) (action : ProviderAction) : Code Unit :=
  Prog.cmd (Stmt.provider callId action)

end Code

end Callio
