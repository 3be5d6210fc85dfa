import Callio.Core.Termination

/-! `QueueTimeoutService`: a queue's timers on the calls waiting in it, and the
one on live calls being handed over. Each scan reads its rows once and then
works on what it read. -/

namespace Callio

open Code

/-- Overflow chains can loop; the number of hops bounds the total wait. -/
def maxOverflows : Nat := 3

def expireOffer (call : Call) : Code Unit :=
  match call.agentId with
  | none => return ()
  | some agentId => do
    let _ ← passOffer call agentId .missed call.offeredAt

def timeoutOptions (onlyIfStatus : CallStatus) (provider : TellProvider) : EndOptions :=
  { reason := .timeout, terminatedBy := .system, onlyIfStatus := some onlyIfStatus, provider }

/-- The queue a call that waited too long may move to. -/
def overflowTarget (call : Call) (overflowQueueId : Option Nat) : Code (Option Queue) :=
  if overflowQueueId.isSome && overflowQueueId ≠ call.queueId && call.overflowCount < maxOverflows
  then QueueRouter.getQueue overflowQueueId
  else return none

/-- The move to the overflow queue, of a row that still is as it was read. -/
def overflowWaiting (call : Call) (queueId toQueueId : Nat) : Code Unit := do
  if ← update call.id (.overflowToQueue queueId toQueueId call.agentId) then
    callOverflowed call toQueueId

/-- `#waitExpired`; `overflowQueueId` is the joined queue's column. -/
def waitExpired (call : Call) (overflowQueueId : Option Nat) : Code Unit := do
  match ← overflowTarget call overflowQueueId, call.queueId with
  | some overflow, some queueId =>
    if overflow.tenantId = call.tenantId then overflowWaiting call queueId overflow.id
    else
      let _ ← CallTerminator.endCall call (timeoutOptions .ringing .whenUnanswered)
  | _, _ =>
    let _ ← CallTerminator.endCall call (timeoutOptions .ringing .whenUnanswered)

/-- A handover nobody answered goes back to its queue, and is offered on. -/
def returnHandover (call : Call) (agentId offeredAt : Nat) : Code Unit := do
  if ← update call.id (.returnHandoverToQueue agentId offeredAt) then
    let _ ← passOffer { call with status := .ringing } agentId .missed

/-- `#handoverExpired`: back to the queue, or the end. -/
def handoverExpired (call : Call) : Code Unit :=
  match call.agentId, call.offeredAt with
  | some agentId, some offeredAt => do
    if call.direction = .inbound && call.queueId.isSome then returnHandover call agentId offeredAt
    else if ← update call.id (.expireHandover agentId offeredAt) then
      let _ ← CallTerminator.endCall call (timeoutOptions .inProgress .terminate)
  | _, _ => return ()

/-! ## The scans -/

def expireOffersOf : List Call → Code Unit
  | [] => return ()
  | call :: rest => do
    expireOffer call
    expireOffersOf rest

def expireOffers : Code Unit := do
  expireOffersOf (← read .findExpiredOffers)

/-- The joined queue's overflow queue, read with the row. -/
def expireWaitsOf : List (Call × Option Nat) → Code Unit
  | [] => return ()
  | (call, overflowQueueId) :: rest => do
    waitExpired call overflowQueueId
    expireWaitsOf rest

def expireWaits : Code Unit := do
  expireWaitsOf (← read .findExpiredWaits)

def expireHandoversOf : List Call → Code Unit
  | [] => return ()
  | call :: rest => do
    handoverExpired call
    expireHandoversOf rest

def expireHandovers (transferTimeoutSeconds : Nat) : Code Unit := do
  expireHandoversOf (← read (.findExpiredHandovers transferTimeoutSeconds))

/-- One tick of the worker that holds the scan lock. -/
def queueTimeoutTick (transferTimeoutSeconds : Nat) : Code Unit := do
  expireOffers
  expireWaits
  expireHandovers transferTimeoutSeconds

end Callio
