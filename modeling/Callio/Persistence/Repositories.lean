import Callio.Persistence.Statements

/-! Repository functions that issue more than one statement. -/

namespace Callio

open Code

/-- `answered_at` can land after another path finalized the call as NO_ANSWER,
so writing it corrects that verdict. -/
def updateTimestamp (callId : Nat) (field : TimestampField) (value : Nat) : Code Unit := do
  let _ ← update callId (.updateTimestamp field value)
  if field = .answeredAt then let _ ← update callId .correctNoAnswerIfAnswered

/-- The provider's timing for a finalizer. -/
structure ProviderTimes where
  endedAt : Option Nat := none
  answeredAt : Option Nat := none
  callDuration : Option Nat := none
  ringingDuration : Option Nat := none
  deriving DecidableEq, Repr

def fillTimes (callId : Nat) (t : ProviderTimes) : Code Unit := do
  let _ ← update callId (.fillTimes t.endedAt t.answeredAt t.callDuration t.ringingDuration)

/-- True if this call caused the status transition. -/
def finalizeFromWebhook (callId : Nat) (terminationReason : TerminationReason)
    (terminatedBy : TerminatedBy) (times : ProviderTimes) : Code Bool := do
  fillTimes callId times
  let finalized ←
    update callId (.finalizeFromWebhook .terminated (some terminationReason) (some terminatedBy))
  let _ ← update callId .correctNoAnswerIfAnswered
  return finalized

/-- True if this call caused the status transition. -/
def finalizeCallAsFailed (callId : Nat) (terminatedBy : TerminatedBy) (times : ProviderTimes) :
    Code Bool := do
  fillTimes callId times
  update callId (.finalizeCallAsFailed (some terminatedBy))

/-- The call holds the agent; also true when it already did. -/
def holdForOwnCall (agentId callId : Nat) : Code Bool := do
  if ← updateAgent agentId (.holdForOwnCall callId) then return true
  return (← read (.busyCallId agentId)) = some callId

end Callio
