import Callio.Core.Termination

/-! What an IVR session does to its call when it completes
(`IvrCoordinator.stopSession`, `IvrTransferHandler`, `IvrTerminationHandler`). -/

namespace Callio

open Code

/-- `stopSession` of a running session; no other outcome touches the row's status. -/
def stopSession (callId : Nat) (transferred : Bool) : Code Unit := do
  let _ ← update callId <|
    if transferred then .updateCallState (some .queue) (some .ringing)
    else .updateCallState none none

inductive IvrEnd
  | hungUp | timeout | error
  deriving DecidableEq, Repr

def ivrTerminationReason : IvrEnd → TerminationReason
  | .timeout => .timeout
  | .error => .systemError
  | .hungUp => .completed

/-- `IvrTerminationHandler`. -/
def ivrTerminated (callId : Nat) (action : IvrEnd) : Code Unit := do
  let _ ← CallTerminator.endById callId
    { reason := ivrTerminationReason action, terminatedBy := .system, provider := .terminate }

/-- A flow that finished without transferring its call. -/
def ivrFinished (callId : Nat) (action : IvrEnd) : Code Unit := do
  stopSession callId false
  ivrTerminated callId action

/-- What a transfer node does when its target can't take the call now. -/
inductive UnavailableAction
  | hangUp | replay | queue
  deriving DecidableEq, Repr

structure IvrTransfer where
  callId : Nat
  tenantId : Nat := 1
  /-- The queue the call's line names. -/
  lineQueueId : Option Nat := none
  target : TransferTarget
  offlineAction : UnavailableAction := .hangUp
  busyAction : UnavailableAction := .queue
  deriving DecidableEq, Repr

inductive TargetAvailability
  | available | busy | offline
  deriving DecidableEq, Repr

namespace IvrTransfer

/-- The agent named, or the queue named, else the line's. -/
def resolved (t : IvrTransfer) : TransferTarget :=
  match t.target with
  | .agent agentId => .agent agentId
  | .queue targetId => .queue (targetId.or t.lineQueueId)

def availabilityOf (members : List Agent) : TargetAvailability :=
  if members.any (·.availability = .available) then .available
  else if members.any (·.availability = .onCall) then .busy
  else .offline

def targetAvailability (t : IvrTransfer) : Code TargetAvailability := do
  match t.resolved with
  | .agent agentId =>
    match ← read (.findAgent agentId) with
    | none => return .offline
    | some agent => return if agent.tenantId = t.tenantId then availabilityOf [agent] else .offline
  | .queue none => return .offline
  | .queue (some queueId) =>
    match ← read (.findQueue queueId) with
    | none => return .offline
    | some queue =>
      if queue.tenantId ≠ t.tenantId then return .offline
      return availabilityOf (← read (.getMembers queueId))

/-- A replay starts the flow again; otherwise the call hangs up. -/
def playOnceAndAct (t : IvrTransfer) (action : UnavailableAction) : Code Unit :=
  if action = .replay then return () else ivrFinished t.callId .hungUp

/-- The queue the call enters, if the node names another than the line's. -/
def enteringQueueId (t : IvrTransfer) : Option Nat :=
  match t.resolved with
  | .queue targetId => if targetId = t.lineQueueId then none else targetId
  | .agent _ => none

/-- The session ends and the call goes to its queue. -/
def moveToQueue (t : IvrTransfer) : Code Unit := do
  stopSession t.callId true
  updateTimestamp t.callId .ringingAt (← read .now)
  let _ ← update t.callId (.enterQueue t.enteringQueueId)
  if (← read (.findById t.callId)).isSome then let _ ← MediaLegs.offerAgent t.callId
  match ← read (.findById t.callId) with
  | none => return ()
  | some callRecord => assignTransferredCall t.callId t.tenantId callRecord.queueId t.resolved

/-- `IvrTransferHandler.handle`. -/
def handle (t : IvrTransfer) : Code Unit := do
  match ← targetAvailability t with
  | .available => moveToQueue t
  | .offline =>
    if t.offlineAction = .queue then moveToQueue t else playOnceAndAct t t.offlineAction
  | .busy => if t.busyAction = .queue then moveToQueue t else playOnceAndAct t t.busyAction

end IvrTransfer

end Callio
