import Callio.Model.Rows

/-! The UPDATE statements on one row of `calls` (`CallRepository`, and
`IvrRepository.updateCallState`): the row is matched by its id and by `guard`,
and `set` is what is written. Each is one atomic step, and its answer says
whether it matched. -/

namespace Callio

inductive TimestampField
  | ringingAt | answeredAt | endedAt
  deriving DecidableEq, Repr

inductive CallUpdate
  | updateStatus (status : CallStatus)
  | transitionStatus (expectedStatus newStatus : CallStatus)
  | updateState (state : Option CallState)
  | markIvrAutoAccepted
  | updateCallState (state : Option CallState) (status : Option CallStatus)
  | updateProviderCallId (providerCallId : Nat)
  | updateQueue (queueId : Nat)
  | updateTimestamp (field : TimestampField) (value : Nat)
  | correctNoAnswerIfAnswered
  | updateTerminatedByIfFailed (terminatedBy : TerminatedBy)
  | markHandoverOffered (agentId : Nat)
  | claimHandover (agentId : Nat)
  | returnHandoverToQueue (agentId offeredAt : Nat)
  | expireHandover (agentId offeredAt : Nat)
  | updateCallAgentIfCurrent (oldAgentId : Option Nat) (newAgentId : Nat)
  | assignCallToAgentIfUnassigned (agentId : Nat)
  | assignCallToAgentIfEligible (agentId : Nat)
  | enterQueue (queueId : Option Nat)
  | withdrawOffer (agentId : Nat) (expiredBefore : Option Nat)
  | overflowToQueue (fromQueueId toQueueId : Nat) (offeredAgentId : Option Nat)
  | markCallFailedIfNotFinal (reason : TerminationReason) (terminatedBy : TerminatedBy)
  | terminateCallIfNotTerminated (terminationReason : Option TerminationReason)
      (terminatedBy : TerminatedBy) (endedAt : Option Nat) (requireStatus : Option CallStatus)
  /-- Phase 1 of both finalizers. -/
  | fillTimes (endedAt answeredAt callDuration ringingDuration : Option Nat)
  /-- Phase 2 of `finalizeFromWebhook`. -/
  | finalizeFromWebhook (status : CallStatus) (terminationReason : Option TerminationReason)
      (terminatedBy : Option TerminatedBy)
  /-- Phase 2 of `finalizeCallAsFailed`. -/
  | finalizeCallAsFailed (terminatedBy : Option TerminatedBy)
  deriving DecidableEq, Repr

/-- A row of `INSERT INTO calls`, by the clock at `now`. -/
def CallRow.inserted (now : Nat) (row : CallRow) : CallRow :=
  { row with createdAt := sqlNow now, ringingAt := row.ringingAt.map timestamp,
             queuedAt := row.queuedAt.map timestamp, offeredAt := row.offeredAt.map timestamp }

section inserted

variable (now : Nat) (row : CallRow)

@[simp] theorem CallRow.inserted_status : (row.inserted now).status = row.status := rfl

@[simp] theorem CallRow.inserted_state : (row.inserted now).state = row.state := rfl

@[simp] theorem CallRow.inserted_direction : (row.inserted now).direction = row.direction := rfl

@[simp] theorem CallRow.inserted_agentId : (row.inserted now).agentId = row.agentId := rfl

@[simp] theorem CallRow.inserted_queueId : (row.inserted now).queueId = row.queueId := rfl

@[simp] theorem CallRow.inserted_ended : (row.inserted now).ended = row.ended := rfl

end inserted

/-- The offer began, and no later than `t`. -/
def CallRow.offeredBy (c : CallRow) (t : Nat) : Bool := c.offeredAt.any (· ≤ t)

namespace CallUpdate

/-- The WHERE clause beside the id. -/
def guard : CallUpdate → CallRow → Bool
  | transitionStatus expected _, c => c.status = expected
  | markIvrAutoAccepted, c => c.state = some .ivr
  | correctNoAnswerIfAnswered, c =>
      c.status = .terminated && c.terminationReason = some .noAnswer && c.answeredAt.isSome &&
        c.ivrFlowId.isNone
  | updateTerminatedByIfFailed _, c => c.status = .failed
  | markHandoverOffered a, c | claimHandover a, c =>
      c.agentId = some a && c.status = .inProgress
  | returnHandoverToQueue a t, c | expireHandover a t, c =>
      c.agentId = some a && c.status = .inProgress && c.offeredBy t
  | updateCallAgentIfCurrent old _, c =>
      c.agentId = old && c.status.active && c.state ≠ some .ivr
  | assignCallToAgentIfUnassigned _, c =>
      c.agentId.isNone && c.status = .ringing && c.direction = .inbound && c.state ≠ some .ivr
  | assignCallToAgentIfEligible a, c =>
      c.status.active && (c.agentId.isNone || c.agentId = some a) && c.state ≠ some .ivr
  | withdrawOffer a expiredBefore, c =>
      c.agentId = some a && c.status = .ringing && c.direction = .inbound && c.offeredAt.isSome &&
        expiredBefore.all c.offeredBy
  | overflowToQueue source _ offered, c =>
      c.queueId = some source && c.status = .ringing && c.direction = .inbound &&
        c.agentId = offered && (c.agentId.isNone || c.offeredAt.isSome)
  | markCallFailedIfNotFinal _ _, c | finalizeFromWebhook _ _ _, c => !c.ended
  | terminateCallIfNotTerminated _ _ _ requireStatus, c =>
      !c.ended && requireStatus.all (c.status = ·)
  | finalizeCallAsFailed _, c => c.status ≠ .failed
  | _, _ => true

/-- The SET clause, by the clock at `now`: the columns it stamps with `NOW()` get
its whole second, the times handed to it are rounded. -/
def set (now : Nat) : CallUpdate → CallRow → CallRow
  | updateStatus status, c => { c with status }
  | transitionStatus _ status, c => { c with status }
  | updateState state, c => { c with state }
  | markIvrAutoAccepted, c => { c with status := .inProgress, state := some .ivr }
  | updateCallState state (some status), c =>
      { c with state, status, ringingAt := c.ringingAt.or (some (sqlNow now)) }
  | updateCallState state none, c => { c with state }
  | updateProviderCallId p, c => { c with providerCallId := some p }
  | updateQueue q, c => { c with queueId := some q }
  | updateTimestamp .ringingAt t, c => { c with ringingAt := some (timestamp t) }
  | updateTimestamp .answeredAt t, c => { c with answeredAt := some (timestamp t) }
  | updateTimestamp .endedAt t, c => { c with endedAt := some (timestamp t) }
  | correctNoAnswerIfAnswered, c => { c with terminationReason := some .completed }
  | updateTerminatedByIfFailed who, c => { c with terminatedBy := some who }
  | markHandoverOffered _, c => { c with offeredAt := some (sqlNow now) }
  | claimHandover _, c | expireHandover _ _, c => { c with offeredAt := none }
  | returnHandoverToQueue _ _, c =>
      { c with status := .ringing, state := some .queue, queuedAt := some (sqlNow now) }
  | updateCallAgentIfCurrent _ a, c => { c with agentId := some a }
  | assignCallToAgentIfUnassigned a, c => { c with agentId := some a, offeredAt := some (sqlNow now) }
  | assignCallToAgentIfEligible a, c => { c with agentId := some a, offeredAt := none }
  | enterQueue q, c => { c with queuedAt := some (sqlNow now), queueId := q.or c.queueId }
  | withdrawOffer _ _, c => { c with agentId := none, offeredAt := none }
  | overflowToQueue _ target _, c =>
      { c with queueId := some target, queuedAt := some (sqlNow now), overflowCount := c.overflowCount + 1,
               agentId := none, offeredAt := none }
  | markCallFailedIfNotFinal reason who, c =>
      { c with status := .failed, state := none, terminationReason := some reason,
               terminatedBy := some who, endedAt := c.endedAt.or (some (sqlNow now)) }
  | terminateCallIfNotTerminated reason who endedAt _, c =>
      { c with status := .terminated, state := none, offeredAt := none,
               terminationReason := reason, terminatedBy := some who,
               endedAt := (endedAt.map timestamp).or (some (sqlNow now)) }
  | fillTimes endedAt answeredAt callDuration ringingDuration, c =>
      { c with endedAt := (endedAt.map timestamp).or c.endedAt,
               answeredAt := (answeredAt.map timestamp).or c.answeredAt,
               callDuration := callDuration.getD c.callDuration,
               ringingDuration := ringingDuration.getD c.ringingDuration }
  | finalizeFromWebhook status reason who, c =>
      { c with status, state := none, terminationReason := c.terminationReason.or reason,
               terminatedBy := c.terminatedBy.or who, endedAt := c.endedAt.or (some (sqlNow now)) }
  | finalizeCallAsFailed who, c =>
      { c with status := .failed, state := none, terminationReason := some .providerError,
               terminatedBy := c.terminatedBy.or who, endedAt := c.endedAt.or (some (sqlNow now)) }

end CallUpdate

end Callio
